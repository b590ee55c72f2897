import Restyle.Bootstrap.Catalog
import Restyle.Proofs.Concatenation
import Restyle.Proofs.Ranking

namespace Restyle

theorem Vocabulary.exists_of_interactive {v : Vocabulary} {name : String}
    (h : (v.variantsOf name).interactive = true) :
    ∃ stem, v.get? name = some stem ∧ stem.variants.interactive = true := by
  unfold variantsOf at h
  cases hs : v.get? name with
  | none =>
    rw [hs] at h
    cases h
  | some stem =>
    rw [hs] at h
    exact ⟨stem, rfl, h⟩

namespace UtilityClass

variable {c : UtilityClass} {variants : StemVariants}

/-- A breakpoint needs a responsive stem; of the states only the first one needs anything. -/
theorem modifierRefusal?_eq_none_iff : c.modifierRefusal? variants = none ↔
    (c.breakpoint = none ∨ variants.responsive = true) ∧
      ∀ state, c.states.head? = some state → variants.interactive = true ∧ state = hoverState := by
  unfold modifierRefusal?
  rw [Option.or_eq_none_iff]
  refine and_congr ?_ ?_
  · cases variants.responsive <;> simp
  · cases c.states.head? with
    | none => simp
    | some state => simp

theorem kind_of_modifierRefusal? {refusal : Refusal}
    (h : c.modifierRefusal? variants = some refusal) :
    refusal.kind = .invalidModifierCombination := by
  unfold modifierRefusal? at h
  rcases Option.or_eq_some_iff.mp h with h | ⟨_, h⟩
  · split at h
    · cases h
    · obtain ⟨bp, _, rfl⟩ := Option.map_eq_some_iff.mp h
      rfl
  · obtain ⟨state, _, h⟩ := Option.bind_eq_some_iff.mp h
    split at h
    · cases h
    · cases h
      rfl

theorem length_states_parse (v : Vocabulary) (token : Token) :
    (parse v token).states.length ≤ 1 := by
  unfold parse
  dsimp only
  cases splitStem? v (splitImportance token.text).2 with
  | none => exact Nat.zero_le 1
  | some split => cases h : split.2.2 <;> simp [h]

end UtilityClass

variable {catalog : Catalog} {options : Options} {c : UtilityClass}

/-- A class whose modifiers are refused is reported as an invalid combination. -/
theorem resolve_of_not_admitted
    (h : c.modifierRefusal? (catalog.vocabulary.variantsOf c.stem) ≠ none) (options : Options) :
    ∃ message, resolve catalog options c = .passthrough .invalidModifierCombination message := by
  obtain ⟨refusal, hm⟩ := Option.ne_none_iff_exists'.mp h
  refine ⟨refusal.message, ?_⟩
  simp only [resolve, hm, Option.some_or, Resolution.refused,
    UtilityClass.kind_of_modifierRefusal? hm]

/-- The states behind the first one do not show in the outcome. -/
theorem resolve_take_states (catalog : Catalog) (options : Options) (c : UtilityClass) :
    resolve catalog options { c with states := c.states.take 1 } = resolve catalog options c := by
  have first : (c.states.take 1).head? = c.states.head? := by
    cases c.states <;> rfl
  have same : ∀ variants, ({ c with states := c.states.take 1 } : UtilityClass).modifierRefusal?
      variants = c.modifierRefusal? variants := by
    intro variants
    simp only [UtilityClass.modifierRefusal?, first]
  unfold resolve
  rw [same]
  rfl

theorem head?_of_mem {α : Type} {xs : List α} {x : α} (short : xs.length ≤ 1) (h : x ∈ xs) :
    xs.head? = some x := by
  match xs with
  | [] => cases h
  | [one] => rw [List.mem_singleton.mp h, List.head?_cons]
  | _ :: _ :: _ => simp at short

/-- The first state of a mapped class is `hover`, behind a stem that takes states. -/
theorem first_state_of_isMapped (mapped : (resolve catalog options c).isMapped = true)
    {state : String} (hs : c.states.head? = some state) :
    (catalog.vocabulary.variantsOf c.stem).interactive = true ∧ state = hoverState := by
  obtain ⟨admitted, _⟩ := admitted_of_isMapped mapped
  exact (UtilityClass.modifierRefusal?_eq_none_iff.mp admitted).2 state hs

/-- A mapped class with one state at most has none but `hover`. -/
theorem eq_hover_of_isMapped (mapped : (resolve catalog options c).isMapped = true)
    (short : c.states.length ≤ 1) : ∀ state ∈ c.states, state = hoverState := by
  intro state hs
  exact (first_state_of_isMapped mapped (head?_of_mem short hs)).2

/-- A class with states is mapped only if its stem takes states and its first state is `hover`; with
one state at most, as every class has that is read from a token, it has no state but `hover`. With
any other first state it is an invalid combination. Further states are not checked: the outcome is
that of the class with its first state alone. -/
theorem resolve_states (catalog : Catalog) (options : Options) :
    (∀ c : UtilityClass, c.states ≠ [] → (resolve catalog options c).isMapped = true →
      (∃ stem, catalog.vocabulary.get? c.stem = some stem ∧ stem.variants.interactive = true) ∧
        c.states.head? = some hoverState ∧
        (c.states.length ≤ 1 → ∀ state ∈ c.states, state = hoverState)) ∧
    (∀ token, (resolveToken catalog options token).resolution.isMapped = true →
      ∀ state ∈ (UtilityClass.parse catalog.vocabulary token).states, state = hoverState) ∧
    (∀ (c : UtilityClass) (state : String), c.states.head? = some state →
      (catalog.vocabulary.variantsOf c.stem).interactive = false ∨ state ≠ hoverState →
        ∃ message,
          resolve catalog options c = .passthrough .invalidModifierCombination message) ∧
    ∀ c : UtilityClass,
      resolve catalog options c = resolve catalog options { c with states := c.states.take 1 } := by
  refine ⟨fun c stated mapped => ?_, fun token mapped => ?_, fun c state hs stopped => ?_,
    fun c => (resolve_take_states catalog options c).symm⟩
  · have head : c.states.head? = some (c.states.head stated) := List.head?_eq_some_head stated
    obtain ⟨interactive, hover⟩ := first_state_of_isMapped mapped head
    exact ⟨Vocabulary.exists_of_interactive interactive, hover ▸ head, eq_hover_of_isMapped mapped⟩
  · rw [resolution_resolveToken] at mapped
    exact eq_hover_of_isMapped mapped (UtilityClass.length_states_parse _ token)
  · refine resolve_of_not_admitted (fun admitted => ?_) options
    obtain ⟨_, first⟩ := UtilityClass.modifierRefusal?_eq_none_iff.mp admitted
    obtain ⟨interactive, hover⟩ := first state hs
    rcases stopped with plain | other
    · rw [interactive] at plain
      cases plain
    · exact other hover

/-- A state behind `hover` becomes a variant that no check has seen: the class here has `focus` as
well, and is composed to `hover:focus:underline-offset-2`. -/
theorem Bootstrap.link_offset_takes_focus :
    ¬ ∀ (catalog : Catalog) (options : Options) (c : UtilityClass) (states : List String),
      (resolve catalog options (states.foldl UtilityClass.addState c)).isMapped = true →
        ∀ state ∈ (states.foldl UtilityClass.addState c).states, state = hoverState := by
  intro h
  let c : UtilityClass :=
    { token := ⟨"link-offset-2", 0⟩, stem := "link-offset", value := some "2" }
  have mapped : (resolve .bootstrap {}
      (["hover", "focus"].foldl UtilityClass.addState c)).isMapped = true := by
    decide +kernel
  exact absurd (h .bootstrap {} c _ mapped "focus" (by decide)) (by decide)

end Restyle
