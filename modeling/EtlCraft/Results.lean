import Mathlib

/-! Taking apart computations that may fail. -/

namespace Results

variable {Input Output Error : Type}

theorem bind_ok {first : Except Error Input} {next : Input → Except Error Output}
    {result : Output} : (first >>= next) = .ok result ↔
      ∃ value, first = .ok value ∧ next value = .ok result := by
  cases first with
  | error error =>
      constructor
      · intro failed
        cases failed
      · rintro ⟨_, failed, _⟩
        cases failed
  | ok value =>
      constructor
      · intro done
        exact ⟨value, rfl, done⟩
      · rintro ⟨_, same, done⟩
        cases same
        exact done

theorem bind_error {first : Except Error Input} {next : Input → Except Error Output}
    {error : Error} : (first >>= next) = .error error ↔
      first = .error error ∨ ∃ value, first = .ok value ∧ next value = .error error := by
  cases first with
  | error other =>
      constructor
      · intro failed
        cases failed
        exact Or.inl rfl
      · rintro (failed | ⟨_, done, _⟩)
        · cases failed
          rfl
        · cases done
  | ok value =>
      constructor
      · intro failed
        exact Or.inr ⟨value, rfl, failed⟩
      · rintro (failed | ⟨_, same, failed⟩)
        · cases failed
        · cases same
          exact failed

theorem mapError_ok {Other : Type} {result : Except Error Output} {change : Error → Other}
    {value : Output} (done : result.mapError change = .ok value) : result = .ok value := by
  cases result with
  | error error => cases done
  | ok other =>
      cases done
      rfl

theorem forall₂_of_mapM {f : Input → Except Error Output} {inputs : List Input}
    {outputs : List Output} (mapped : inputs.mapM f = .ok outputs) :
    List.Forall₂ (fun input output => f input = .ok output) inputs outputs := by
  induction inputs generalizing outputs with
  | nil =>
      simp only [List.mapM_nil] at mapped
      cases mapped
      exact List.Forall₂.nil
  | cons input inputs ih =>
      rw [List.mapM_cons] at mapped
      obtain ⟨output, first, rest⟩ := bind_ok.mp mapped
      obtain ⟨later, restMapped, same⟩ := bind_ok.mp rest
      cases same
      exact List.Forall₂.cons first (ih restMapped)

theorem error_of_mapM {f : Input → Except Error Output}
    {inputs : List Input} {error : Error} (failed : inputs.mapM f = .error error) :
    ∃ input ∈ inputs, f input = .error error := by
  induction inputs with
  | nil => contradiction
  | cons input inputs ih =>
      rw [List.mapM_cons] at failed
      rcases bind_error.mp failed with failed | ⟨_, _, failed⟩
      · exact ⟨input, List.mem_cons_self, failed⟩
      · rcases bind_error.mp failed with failed | ⟨_, _, failed⟩
        · obtain ⟨other, member, failed⟩ := ih failed
          exact ⟨other, List.mem_cons_of_mem _ member, failed⟩
        · contradiction

theorem exists_of_mapM {f : Input → Except Error Output} {inputs : List Input}
    {outputs : List Output} (mapped : inputs.mapM f = .ok outputs) {input : Input}
    (member : input ∈ inputs) : ∃ output ∈ outputs, f input = .ok output := by
  have pairs := forall₂_of_mapM mapped
  clear mapped
  induction pairs with
  | nil => cases member
  | cons first _ ih =>
      rcases List.mem_cons.mp member with rfl | later
      · exact ⟨_, List.mem_cons_self, first⟩
      · obtain ⟨output, inOutputs, same⟩ := ih later
        exact ⟨output, List.mem_cons_of_mem _ inOutputs, same⟩

theorem mapM_of_forall₂ {f : Input → Except Error Output} {inputs : List Input}
    {outputs : List Output}
    (pairs : List.Forall₂ (fun input output => f input = .ok output) inputs outputs) :
    inputs.mapM f = .ok outputs := by
  induction pairs with
  | nil => rfl
  | cons first _ ih =>
      rw [List.mapM_cons, first, ih]
      rfl

theorem mapM_perm {f : Input → Except Error Output} {inputs inputs' : List Input}
    {outputs : List Output} (perm : inputs.Perm inputs') (mapped : inputs.mapM f = .ok outputs) :
    ∃ outputs', inputs'.mapM f = .ok outputs' ∧ outputs.Perm outputs' := by
  obtain ⟨outputs', pairs, same⟩ := List.perm_comp_forall₂ perm.symm (forall₂_of_mapM mapped)
  exact ⟨outputs', mapM_of_forall₂ pairs, same.symm⟩

theorem mem_of_forall₂ {related : Input → Output → Prop} {inputs : List Input}
    {outputs : List Output} (pairs : List.Forall₂ related inputs outputs) {output : Output}
    (member : output ∈ outputs) : ∃ input ∈ inputs, related input output := by
  induction pairs with
  | nil => cases member
  | cons first _ ih =>
      rcases List.mem_cons.mp member with same | later
      · exact ⟨_, List.mem_cons_self, same ▸ first⟩
      · obtain ⟨input, inInputs, found⟩ := ih later
        exact ⟨input, List.mem_cons_of_mem _ inInputs, found⟩

theorem mem_inputs {f : Input → Except Error Output} {inputs : List Input}
    {outputs : List Output} (mapped : inputs.mapM f = .ok outputs) {output : Output}
    (member : output ∈ outputs) : ∃ input ∈ inputs, f input = .ok output :=
  mem_of_forall₂ (forall₂_of_mapM mapped) member

theorem pairwise_of_mapM {f : Input → Except Error Output} {inputs : List Input}
    {outputs : List Output} (mapped : inputs.mapM f = .ok outputs)
    {before : Input → Input → Prop} {before' : Output → Output → Prop}
    (keeps : ∀ first second output output', before first second → f first = .ok output →
      f second = .ok output' → before' output output')
    (ordered : inputs.Pairwise before) : outputs.Pairwise before' := by
  have pairs := forall₂_of_mapM mapped
  clear mapped
  induction pairs with
  | nil => exact List.Pairwise.nil
  | @cons input output inputs outputs first rest ih =>
      rw [List.pairwise_cons] at ordered ⊢
      refine ⟨?_, ih ordered.2⟩
      intro other member
      obtain ⟨second, inInputs, found⟩ := mem_of_forall₂ rest member
      exact keeps input second output other (ordered.1 second inInputs) first found

theorem foldlM_covers {Found : Type} {step : List Found → Input → Option (List Found)}
    {kept : List Found → Prop} {covers : Input → Found → Prop} {inputs : List Input}
    (each : ∀ input ∈ inputs, ∀ found, kept found → ∃ next, step found input = some next ∧
      kept next ∧ found ⊆ next ∧ ∀ item, covers input item → item ∈ next)
    {found : List Found} (start : kept found) :
    ∃ result, inputs.foldlM step found = some result ∧ kept result ∧ found ⊆ result ∧
      ∀ input ∈ inputs, ∀ item, covers input item → item ∈ result := by
  induction inputs generalizing found with
  | nil => exact ⟨found, rfl, start, List.Subset.refl _, by simp⟩
  | cons input inputs ih =>
      obtain ⟨next, stepped, keptNext, grows, covered⟩ := each input List.mem_cons_self found start
      obtain ⟨result, folded, keptResult, growsMore, coveredMore⟩ :=
        ih (fun other member => each other (List.mem_cons_of_mem _ member)) keptNext
      refine ⟨result, ?_, keptResult, List.Subset.trans grows growsMore, ?_⟩
      · rw [List.foldlM_cons, stepped]
        exact folded
      · intro other member item covers'
        rcases List.mem_cons.mp member with rfl | later
        · exact growsMore (covered item covers')
        · exact coveredMore other later item covers'

end Results
