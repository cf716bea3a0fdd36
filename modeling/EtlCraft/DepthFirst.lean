import Mathlib

/-! Depth-first search with an explicit stack over any successor function. A search that ends
without reporting a cycle has proved every visited node accessible, so the successor relation
admits induction on the nodes it coloured black. -/

namespace DepthFirst

inductive Color
  | white
  | gray
  | black
  deriving DecidableEq, Repr

/-- The colours, the path from the root and the frames, each with its unread successors. -/
structure Search (α : Type) where
  color : α → Color
  path : List α
  stack : List (α × List α)

inductive Verdict (α : Type)
  | cycle (nodes : List α)
  | finished (color : α → Color)
  | starved

variable {α : Type} [DecidableEq α]

def search (successors : α → List α) : Nat → Search α → Verdict α
  | 0, _ => .starved
  | fuel + 1, ⟨color, path, stack⟩ =>
      match stack with
      | [] => .finished color
      | (node, []) :: rest =>
          search successors fuel ⟨Function.update color node .black, path.dropLast, rest⟩
      | (node, next :: pending) :: rest =>
          match color next with
          | .gray => .cycle (path.drop (path.idxOf next) ++ [next])
          | .white =>
              search successors fuel ⟨Function.update color next .gray, path ++ [next],
                (next, successors next) :: (node, pending) :: rest⟩
          | .black => search successors fuel ⟨color, path, (node, pending) :: rest⟩

def start (successors : α → List α) (color : α → Color) (root : α) : Search α :=
  ⟨Function.update color root .gray, [root], [(root, successors root)]⟩

def searchRoots (successors : α → List α) (fuel : Nat) : (α → Color) → List α → Verdict α
  | color, [] => .finished color
  | color, root :: roots =>
      match color root with
      | .white =>
          match search successors fuel (start successors color root) with
          | .finished next => searchRoots successors fuel next roots
          | verdict => verdict
      | _ => searchRoots successors fuel color roots

/-- Every node's frame and every node's successors are read at most once. -/
def budget (successors : α → List α) (nodes : List α) : Nat :=
  (nodes.map fun node => (successors node).length + 1).sum + 1

def searchAll (successors : α → List α) (nodes : List α) : Verdict α :=
  searchRoots successors (budget successors nodes) (fun _ => .white) nodes

def Before (successors : α → List α) (earlier later : α) : Prop :=
  earlier ∈ successors later

def BlackAccessible (successors : α → List α) (color : α → Color) : Prop :=
  ∀ node, color node = .black → Acc (Before successors) node

def Frames (successors : α → List α) : Option α → List (α × List α) → Prop
  | _, [] => True
  | above, (node, pending) :: rest =>
      (∀ next ∈ successors node,
        next ∈ pending ∨ Acc (Before successors) next ∨ above = some next) ∧
      Frames successors (some node) rest

omit [DecidableEq α] in
theorem Frames.resolve {successors : α → List α} {above : α} {stack : List (α × List α)}
    (frames : Frames successors (some above) stack)
    (accessible : Acc (Before successors) above) : Frames successors none stack := by
  cases stack with
  | nil => trivial
  | cons frame rest =>
      refine ⟨?_, frames.2⟩
      intro next member
      rcases frames.1 next member with unread | done | same
      · exact Or.inl unread
      · exact Or.inr (Or.inl done)
      · cases same
        exact Or.inr (Or.inl accessible)

theorem blackAccessible_update {successors : α → List α} {color : α → Color} {node : α}
    (black : BlackAccessible successors color) (shade : Color)
    (accessible : shade = .black → Acc (Before successors) node) :
    BlackAccessible successors (Function.update color node shade) := by
  intro query isBlack
  by_cases same : query = node
  · subst query
    rw [Function.update_self] at isBlack
    exact accessible isBlack
  · rw [Function.update_of_ne same] at isBlack
    exact black query isBlack

theorem search_accessible {successors : α → List α} {fuel : Nat} {state : Search α}
    {color : α → Color}
    (finished : search successors fuel state = .finished color)
    (black : BlackAccessible successors state.color)
    (frames : Frames successors none state.stack) :
    BlackAccessible successors color := by
  induction fuel generalizing state with
  | zero => simp [search] at finished
  | succ fuel ih =>
      obtain ⟨shade, path, stack⟩ := state
      match stack, frames with
      | [], _ =>
          simp only [search, Verdict.finished.injEq] at finished
          subst finished
          exact black
      | (node, []) :: rest, frames =>
          have accessible : Acc (Before successors) node := by
            constructor
            intro next member
            rcases frames.1 next member with unread | done | same
            · simp at unread
            · exact done
            · cases same
          simp only [search] at finished
          exact ih finished (blackAccessible_update black .black fun _ => accessible)
            (frames.2.resolve accessible)
      | (node, next :: pending) :: rest, frames =>
          simp only [search] at finished
          split at finished
          · simp at finished
          · apply ih finished (blackAccessible_update black .gray (by simp))
            refine ⟨fun query member => Or.inl member, ?_, frames.2⟩
            intro query member
            rcases frames.1 query member with unread | done | same
            · rcases List.mem_cons.mp unread with same | later
              · exact Or.inr (Or.inr (by rw [same]))
              · exact Or.inl later
            · exact Or.inr (Or.inl done)
            · cases same
          · rename_i isBlack
            apply ih finished black
            refine ⟨?_, frames.2⟩
            intro query member
            rcases frames.1 query member with unread | done | same
            · rcases List.mem_cons.mp unread with same | later
              · subst query
                exact Or.inr (Or.inl (black next isBlack))
              · exact Or.inl later
            · exact Or.inr (Or.inl done)
            · cases same

theorem start_frames (successors : α → List α) (color : α → Color) (root : α) :
    Frames successors none (start successors color root).stack :=
  ⟨fun _ member => Or.inl member, trivial⟩

def GrayOpen (state : Search α) : Prop :=
  ∀ node, state.color node = .gray → node ∈ state.stack.map Prod.fst

theorem search_noGray {successors : α → List α} {fuel : Nat} {state : Search α}
    {color : α → Color}
    (finished : search successors fuel state = .finished color) (gray : GrayOpen state) :
    ∀ node, color node ≠ .gray := by
  induction fuel generalizing state with
  | zero => simp [search] at finished
  | succ fuel ih =>
      obtain ⟨shade, path, stack⟩ := state
      match stack with
      | [] =>
          simp only [search, Verdict.finished.injEq] at finished
          subst finished
          intro node isGray
          simpa using gray node isGray
      | (node, []) :: rest =>
          simp only [search] at finished
          apply ih finished
          intro query isGray
          by_cases same : query = node
          · simp [same] at isGray
          · simp only [Function.update_of_ne same] at isGray
            have opened := gray query isGray
            simpa [same] using opened
      | (node, next :: pending) :: rest =>
          simp only [search] at finished
          split at finished
          · simp at finished
          · apply ih finished
            intro query isGray
            by_cases same : query = next
            · simp [same]
            · simp only [Function.update_of_ne same] at isGray
              exact List.mem_cons_of_mem _ (gray query isGray)
          · exact ih finished gray

theorem search_black {successors : α → List α} {fuel : Nat} {state : Search α}
    {color : α → Color}
    (finished : search successors fuel state = .finished color) (node : α)
    (seen : state.color node = .black ∨ node ∈ state.stack.map Prod.fst) :
    color node = .black := by
  induction fuel generalizing state with
  | zero => simp [search] at finished
  | succ fuel ih =>
      obtain ⟨shade, path, stack⟩ := state
      match stack with
      | [] =>
          simp only [search, Verdict.finished.injEq] at finished
          subst finished
          simpa using seen
      | (top, []) :: rest =>
          simp only [search] at finished
          apply ih finished
          by_cases same : node = top
          · simp [same]
          · simp only [Function.update_of_ne same]
            simpa [same] using seen
      | (top, next :: pending) :: rest =>
          simp only [search] at finished
          split at finished
          · simp at finished
          · rename_i white
            apply ih finished
            rcases seen with black | opened
            · have different : node ≠ next := by
                rintro rfl
                simp [white] at black
              refine Or.inl ?_
              simp only [Function.update_of_ne different]
              exact black
            · exact Or.inr (List.mem_cons_of_mem _ opened)
          · exact ih finished seen

theorem start_grayOpen {color : α → Color} (noGray : ∀ node, color node ≠ .gray)
    (successors : α → List α) (root : α) : GrayOpen (start successors color root) := by
  intro node isGray
  by_cases same : node = root
  · simp [start, same]
  · simp only [start, Function.update_of_ne same] at isGray
    exact absurd isGray (noGray node)

theorem searchRoots_accessible {successors : α → List α} {fuel : Nat} {color final : α → Color}
    {roots : List α} (finished : searchRoots successors fuel color roots = .finished final)
    (black : BlackAccessible successors color) (noGray : ∀ node, color node ≠ .gray) :
    BlackAccessible successors final ∧ (∀ node, color node = .black → final node = .black) ∧
      ∀ root ∈ roots, final root = .black := by
  induction roots generalizing color with
  | nil =>
      simp only [searchRoots, Verdict.finished.injEq] at finished
      subst finished
      exact ⟨black, fun _ isBlack => isBlack, by simp⟩
  | cons root roots ih =>
      rw [searchRoots] at finished
      cases shade : color root with
      | gray => exact absurd shade (noGray root)
      | black =>
          simp only [shade] at finished
          obtain ⟨accessible, kept, visited⟩ := ih finished black noGray
          refine ⟨accessible, kept, ?_⟩
          intro node member
          rcases List.mem_cons.mp member with same | later
          · exact same ▸ kept root shade
          · exact visited node later
      | white =>
          simp only [shade] at finished
          split at finished
          next middle ended =>
            have blackMiddle := search_accessible ended
              (blackAccessible_update black .gray (by simp)) (start_frames successors color root)
            have grayMiddle := search_noGray ended (start_grayOpen noGray successors root)
            obtain ⟨accessible, kept, visited⟩ := ih finished blackMiddle grayMiddle
            refine ⟨accessible, ?_, ?_⟩
            · intro node isBlack
              have different : node ≠ root := by
                rintro rfl
                simp [shade] at isBlack
              apply kept node (search_black ended node (Or.inl ?_))
              simpa [start, Function.update_of_ne different] using isBlack
            · intro node member
              rcases List.mem_cons.mp member with same | later
              · exact kept node (search_black ended node (Or.inr (by simp [start, same])))
              · exact visited node later
          next stopped =>
            exact absurd finished (stopped final)

theorem searchAll_accessible {successors : α → List α} {nodes : List α} {color : α → Color}
    (finished : searchAll successors nodes = .finished color) :
    ∀ node ∈ nodes, Acc (Before successors) node := by
  obtain ⟨accessible, _, visited⟩ := searchRoots_accessible finished
    (fun node isBlack => by simp at isBlack) (fun node => by simp)
  exact fun node member => accessible node (visited node member)

def whiteWeight (successors : α → List α) (nodes : List α) (color : α → Color) : Nat :=
  (nodes.map fun node => if color node = .white then (successors node).length + 1 else 0).sum

def frameWeight (stack : List (α × List α)) : Nat :=
  (stack.map fun frame => frame.2.length + 1).sum

theorem whiteWeight_update_le (successors : α → List α) (nodes : List α) (color : α → Color)
    (node : α) (shade : Color) (notWhite : shade ≠ .white) :
    whiteWeight successors nodes (Function.update color node shade) ≤
      whiteWeight successors nodes color := by
  induction nodes with
  | nil => simp [whiteWeight]
  | cons first rest ih =>
      simp only [whiteWeight, List.map_cons, List.sum_cons] at ih ⊢
      by_cases same : first = node
      · subst first
        simp only [Function.update_self, notWhite, if_false]
        omega
      · rw [Function.update_of_ne same]
        omega

theorem whiteWeight_visit (successors : α → List α) (nodes : List α) (color : α → Color)
    (node : α) (member : node ∈ nodes) (white : color node = .white) :
    whiteWeight successors nodes (Function.update color node .gray) +
      ((successors node).length + 1) ≤ whiteWeight successors nodes color := by
  induction nodes with
  | nil => simp at member
  | cons first rest ih =>
      by_cases same : first = node
      · subst first
        have tail := whiteWeight_update_le successors rest color node .gray (by simp)
        simp only [whiteWeight, List.map_cons, List.sum_cons, Function.update_self, white,
          if_true] at tail ⊢
        simp only [reduceCtorEq, if_false]
        omega
      · have later := (List.mem_cons.mp member).resolve_left (Ne.symm same)
        have tail := ih later
        simp only [whiteWeight, List.map_cons, List.sum_cons] at tail ⊢
        rw [Function.update_of_ne same]
        omega

theorem search_notStarved {successors : α → List α} {nodes : List α}
    (closed : ∀ node ∈ nodes, ∀ next ∈ successors node, next ∈ nodes)
    {fuel : Nat} {state : Search α}
    (known : ∀ frame ∈ state.stack, ∀ next ∈ frame.2, next ∈ nodes)
    (enough : whiteWeight successors nodes state.color + frameWeight state.stack < fuel) :
    search successors fuel state ≠ .starved := by
  induction fuel generalizing state with
  | zero => omega
  | succ fuel ih =>
      obtain ⟨shade, path, stack⟩ := state
      match stack with
      | [] => simp [search]
      | (node, []) :: rest =>
          simp only [search]
          apply ih
          · exact fun frame member => known frame (List.mem_cons_of_mem _ member)
          · have less := whiteWeight_update_le successors nodes shade node .black (by simp)
            simp only [frameWeight, List.map_cons, List.sum_cons] at enough ⊢
            omega
      | (node, next :: pending) :: rest =>
          have nextKnown : next ∈ nodes := known _ List.mem_cons_self next List.mem_cons_self
          have pendingKnown : ∀ frame ∈ (node, pending) :: rest, ∀ query ∈ frame.2,
              query ∈ nodes := by
            intro frame member query unread
            rcases List.mem_cons.mp member with same | later
            · subst frame
              exact known _ List.mem_cons_self query (List.mem_cons_of_mem _ unread)
            · exact known frame (List.mem_cons_of_mem _ later) query unread
          simp only [search]
          split
          · simp
          · rename_i white
            apply ih
            · intro frame member query unread
              rcases List.mem_cons.mp member with same | later
              · subst frame
                exact closed next nextKnown query unread
              · exact pendingKnown frame later query unread
            · have less := whiteWeight_visit successors nodes shade next nextKnown white
              simp only [frameWeight, List.map_cons, List.sum_cons, List.length_cons]
                at enough ⊢
              omega
          · apply ih pendingKnown
            simp only [frameWeight, List.map_cons, List.sum_cons, List.length_cons] at enough ⊢
            omega

theorem searchRoots_notStarved {successors : α → List α} {nodes : List α}
    (closed : ∀ node ∈ nodes, ∀ next ∈ successors node, next ∈ nodes)
    {color : α → Color} {roots : List α} (known : ∀ root ∈ roots, root ∈ nodes) :
    searchRoots successors (budget successors nodes) color roots ≠ .starved := by
  induction roots generalizing color with
  | nil => simp [searchRoots]
  | cons root roots ih =>
      have tail : ∀ next, searchRoots successors (budget successors nodes) next roots ≠ .starved :=
        fun _ => ih fun query member => known query (List.mem_cons_of_mem _ member)
      rw [searchRoots]
      split
      · rename_i white
        have rootKnown := known root List.mem_cons_self
        have fed : search successors (budget successors nodes) (start successors color root) ≠
            .starved := by
          apply search_notStarved closed
          · intro frame member next unread
            simp only [start, List.mem_singleton] at member
            subst frame
            exact closed root rootKnown next unread
          · have less := whiteWeight_visit successors nodes color root rootKnown white
            have whole : whiteWeight successors nodes color < budget successors nodes := by
              simp only [whiteWeight, budget, Nat.lt_succ_iff]
              exact List.sum_le_sum fun node _ => by split <;> omega
            simp only [start, frameWeight, List.map_cons, List.map_nil, List.sum_cons,
              List.sum_nil]
            omega
        split
        · exact tail _
        · rename_i stopped
          exact fed
      · exact tail _

theorem searchAll_notStarved {successors : α → List α} {nodes : List α}
    (closed : ∀ node ∈ nodes, ∀ next ∈ successors node, next ∈ nodes) :
    searchAll successors nodes ≠ .starved :=
  searchRoots_notStarved closed fun _ member => member

/-- A closed walk over successors that meets no node twice before its end. -/
structure Genuine (successors : α → List α) (nodes : List α) : Prop where
  closes : ∃ first middle, nodes = first :: middle ++ [first]
  distinct : nodes.dropLast.Nodup
  walks : nodes.IsChain fun node next => next ∈ successors node

/-- The path is the open frames from the root down, it is exactly what is gray, and each frame has
still to read some of its successors. -/
structure OnPath (successors : α → List α) (state : Search α) : Prop where
  frames : state.path = (state.stack.map Prod.fst).reverse
  distinct : state.path.Nodup
  gray : ∀ node, state.color node = .gray ↔ node ∈ state.path
  walks : state.path.IsChain fun node next => next ∈ successors node
  unread : ∀ frame ∈ state.stack, ∀ next ∈ frame.2, next ∈ successors frame.1

theorem OnPath.pop {successors : α → List α} {color : α → Color} {path : List α} {node : α}
    {rest : List (α × List α)} (on : OnPath successors ⟨color, path, (node, []) :: rest⟩) :
    OnPath successors ⟨Function.update color node .black, path.dropLast, rest⟩ := by
  have shape : path = (rest.map Prod.fst).reverse ++ [node] := by simpa using on.frames
  have distinct := on.distinct
  have walks := on.walks
  have gray := on.gray
  simp only [shape] at distinct walks gray
  rw [List.nodup_append] at distinct
  refine ⟨by simp [shape], by simpa [shape] using distinct.1, ?_, ?_, ?_⟩
  · intro query
    rw [shape, List.dropLast_concat]
    by_cases same : query = node
    · subst query
      simp only [Function.update_self, reduceCtorEq, false_iff]
      exact fun member => distinct.2.2 node member node (List.mem_singleton_self node) rfl
    · simp only [Function.update_of_ne same, gray, List.mem_append, List.mem_singleton, same,
        or_false]
  · rw [shape, List.dropLast_concat]
    exact walks.left_of_append
  · exact fun frame member => on.unread frame (List.mem_cons_of_mem _ member)

omit [DecidableEq α] in
theorem OnPath.skip {successors : α → List α} {color : α → Color} {path : List α} {node next : α}
    {pending : List α} {rest : List (α × List α)}
    (on : OnPath successors ⟨color, path, (node, next :: pending) :: rest⟩) :
    OnPath successors ⟨color, path, (node, pending) :: rest⟩ := by
  refine ⟨on.frames, on.distinct, on.gray, on.walks, ?_⟩
  intro frame member query unread
  rcases List.mem_cons.mp member with rfl | later
  · exact on.unread _ List.mem_cons_self query (List.mem_cons_of_mem next unread)
  · exact on.unread frame (List.mem_cons_of_mem _ later) query unread

theorem OnPath.descend {successors : α → List α} {color : α → Color} {path : List α}
    {node next : α} {pending : List α} {rest : List (α × List α)}
    (on : OnPath successors ⟨color, path, (node, next :: pending) :: rest⟩)
    (white : color next = .white) :
    OnPath successors ⟨Function.update color next .gray, path ++ [next],
      (next, successors next) :: (node, pending) :: rest⟩ := by
  have shape : path = (rest.map Prod.fst).reverse ++ [node] := by simpa using on.frames
  have fresh : next ∉ path := by
    intro member
    have gray : color next = .gray := (on.gray next).mpr member
    rw [white] at gray
    cases gray
  have step : next ∈ successors node := on.unread _ List.mem_cons_self next List.mem_cons_self
  refine ⟨by simp [shape], ?_, ?_, ?_, ?_⟩
  · rw [List.nodup_append]
    refine ⟨on.distinct, List.nodup_singleton next, ?_⟩
    intro query member other single same
    rw [List.mem_singleton.mp single] at same
    exact fresh (same ▸ member)
  · intro query
    by_cases same : query = next
    · simp [same]
    · simp only [Function.update_of_ne same, on.gray, List.mem_append, List.mem_singleton, same,
        or_false]
  · rw [List.isChain_append]
    refine ⟨on.walks, List.isChain_singleton next, ?_⟩
    intro last isLast first isFirst
    rw [shape, List.getLast?_concat] at isLast
    cases isLast
    cases isFirst
    exact step
  · intro frame member query unread
    rcases List.mem_cons.mp member with rfl | later
    · exact unread
    · exact (OnPath.skip on).unread frame later query unread

theorem OnPath.found {successors : α → List α} {color : α → Color} {path : List α}
    {node next : α} {pending : List α} {rest : List (α × List α)}
    (on : OnPath successors ⟨color, path, (node, next :: pending) :: rest⟩)
    (gray : color next = .gray) :
    Genuine successors (path.drop (path.idxOf next) ++ [next]) := by
  have shape : path = (rest.map Prod.fst).reverse ++ [node] := by simpa using on.frames
  have member : next ∈ path := (on.gray next).mp gray
  have inside : path.idxOf next < path.length := List.idxOf_lt_length_iff.mpr member
  have first : path.drop (path.idxOf next) =
      next :: path.drop (path.idxOf next + 1) := by
    rw [List.drop_eq_getElem_cons inside, List.getElem_idxOf inside]
  have step : next ∈ successors node := on.unread _ List.mem_cons_self next List.mem_cons_self
  refine ⟨⟨next, path.drop (path.idxOf next + 1), by rw [first]⟩, ?_, ?_⟩
  · rw [List.dropLast_concat]
    exact on.distinct.sublist (List.drop_sublist _ _)
  · rw [List.isChain_append]
    refine ⟨on.walks.drop _, List.isChain_singleton next, ?_⟩
    intro last isLast close isClose
    rw [List.getLast?_drop, if_neg (by omega), shape, List.getLast?_concat] at isLast
    cases isLast
    cases isClose
    exact step

theorem search_genuine {successors : α → List α} {fuel : Nat} {state : Search α} {nodes : List α}
    (found : search successors fuel state = .cycle nodes) (on : OnPath successors state) :
    Genuine successors nodes := by
  induction fuel generalizing state with
  | zero => simp [search] at found
  | succ fuel ih =>
      obtain ⟨color, path, stack⟩ := state
      match stack with
      | [] => simp [search] at found
      | (node, []) :: rest =>
          simp only [search] at found
          exact ih found on.pop
      | (node, next :: pending) :: rest =>
          simp only [search] at found
          split at found
          · rename_i gray
            cases found
            exact on.found gray
          · rename_i white
            exact ih found (on.descend white)
          · exact ih found on.skip

theorem start_onPath {color : α → Color} (noGray : ∀ node, color node ≠ .gray)
    (successors : α → List α) (root : α) : OnPath successors (start successors color root) := by
  refine ⟨rfl, List.nodup_singleton root, ?_, List.isChain_singleton root, ?_⟩
  · intro node
    by_cases same : node = root
    · simp [start, same]
    · simp [start, noGray node, same]
  · intro frame member next unread
    simp only [start, List.mem_singleton] at member
    subst frame
    exact unread

theorem searchRoots_genuine {successors : α → List α} {fuel : Nat} {color : α → Color}
    {roots nodes : List α} (found : searchRoots successors fuel color roots = .cycle nodes)
    (noGray : ∀ node, color node ≠ .gray) : Genuine successors nodes := by
  induction roots generalizing color with
  | nil => simp [searchRoots] at found
  | cons root roots ih =>
      rw [searchRoots] at found
      split at found
      · split at found
        · rename_i middle ended
          exact ih found (search_noGray ended (start_grayOpen noGray successors root))
        · exact search_genuine found (start_onPath noGray successors root)
      · exact ih found noGray

theorem searchAll_genuine {successors : α → List α} {nodes found : List α}
    (reported : searchAll successors nodes = .cycle found) : Genuine successors found :=
  searchRoots_genuine reported fun node => by simp

omit [DecidableEq α] in
theorem Genuine.loop {successors : α → List α} {nodes : List α}
    (genuine : Genuine successors nodes) :
    ∃ node, Relation.TransGen (fun node next => next ∈ successors node) node node := by
  obtain ⟨first, middle, rfl⟩ := genuine.closes
  refine ⟨first, ?_⟩
  have walks := genuine.walks
  rw [List.cons_append] at walks
  have reaches : ∀ (middle : List α) start,
      (start :: (middle ++ [first])).IsChain (fun node next => next ∈ successors node) →
      Relation.TransGen (fun node next => next ∈ successors node) start first := by
    intro middle
    induction middle with
    | nil =>
        intro start chain
        exact Relation.TransGen.single (List.isChain_cons_cons.mp chain).1
    | cons next middle ih =>
        intro start chain
        obtain ⟨step, rest⟩ := List.isChain_cons_cons.mp chain
        exact Relation.TransGen.head step (ih next rest)
  exact reaches middle first walks

omit [DecidableEq α] in
theorem no_loop {successors : α → List α} {node : α} (accessible : Acc (Before successors) node) :
    ¬Relation.TransGen (fun node next => next ∈ successors node) node node := by
  have down : Acc (Relation.TransGen (Before successors)) node := accessible.transGen
  intro loop
  have back : Relation.TransGen (Before successors) node node :=
    Relation.transGen_swap.mp loop
  clear loop accessible
  induction down with
  | intro node _ ih => exact ih node back back

theorem searchAll_cycle_iff {successors : α → List α} {nodes : List α}
    (closed : ∀ node ∈ nodes, ∀ next ∈ successors node, next ∈ nodes)
    (leaf : ∀ node, node ∉ nodes → successors node = []) :
    (∃ found, searchAll successors nodes = .cycle found) ↔
      ∃ node, Relation.TransGen (fun node next => next ∈ successors node) node node := by
  constructor
  · rintro ⟨found, reported⟩
    exact (searchAll_genuine reported).loop
  · rintro ⟨node, loop⟩
    cases verdict : searchAll successors nodes with
    | cycle found => exact ⟨found, rfl⟩
    | starved => exact (searchAll_notStarved closed verdict).elim
    | finished color =>
        obtain ⟨next, step, _⟩ := Relation.TransGen.head'_iff.mp loop
        have inside : node ∈ nodes := by
          by_contra outside
          rw [leaf node outside] at step
          cases step
        exact (no_loop (searchAll_accessible verdict node inside) loop).elim

end DepthFirst
