import Restyle.Proofs.Concatenation
import Restyle.Proofs.OwnKeys

namespace Restyle

namespace UtilityClass

def varied (c : UtilityClass) (bp : Option Breakpoint) (hover : Bool) : UtilityClass :=
  let tiered := { c with breakpoint := bp }
  if hover then tiered.addState hoverState else tiered

theorem addState_of_no_states {c : UtilityClass} (h : c.states = []) (state : String) :
    c.addState state = { c with states := [state] } := by
  simp [addState, h]

theorem varied_eq {c : UtilityClass} (h : c.states = []) (bp : Option Breakpoint) (hover : Bool) :
    c.varied bp hover =
      { c with breakpoint := bp, states := if hover then [hoverState] else [] } := by
  have hs : ({ c with breakpoint := bp } : UtilityClass).states = [] := h
  cases hover with
  | false =>
    rw [varied]
    simp [← h]
  | true => exact addState_of_no_states hs hoverState

/-- Rules are looked up under the stem and the value alone. -/
theorem attempts_congr {c d : UtilityClass} (hs : c.stem = d.stem) (hv : c.value = d.value)
    (catalog : Catalog) (options : Options) :
    attempts catalog options c = attempts catalog options d := by
  simp only [attempts, candidates, utilityName, hs, hv]

end UtilityClass

variable {catalog : Catalog} {options : Options} {c : UtilityClass}

/-- A class is refused, or it has what the selected rule gives. -/
theorem resolve_cases (catalog : Catalog) (options : Options) (c : UtilityClass) :
    (∃ refusal, resolve catalog options c = .refused refusal) ∨
      ∃ selection, select? (attempts catalog options c) = some selection ∧
        resolve catalog options c =
          .mapped selection.rule.kind selection.classes selection.ambiguity? := by
  unfold resolve
  dsimp only
  split
  · next refusal _ => exact .inl ⟨refusal, rfl⟩
  · split
    · next selection hs =>
      unfold Selection.resolution
      split
      · exact .inl ⟨_, rfl⟩
      · exact .inr ⟨selection, hs, rfl⟩
    · exact .inl ⟨_, rfl⟩

/-- Nothing stops a class without variants once a rule is selected. -/
theorem resolve_of_no_variants (hb : c.breakpoint = none) (hs : c.states = [])
    {selection : Selection} (h : select? (attempts catalog options c) = some selection) :
    resolve catalog options c =
      .mapped selection.rule.kind selection.classes selection.ambiguity? := by
  obtain ⟨admitted, plain⟩ := resolve_admitted hb hs (catalog.vocabulary.variantsOf c.stem)
  rw [resolve_of_select? admitted plain h, hb]
  rfl

/-- With its variants a class is mapped to what it is mapped to without them, if at all. -/
theorem resolve_varied_cases (catalog : Catalog) (options : Options) (hb : c.breakpoint = none)
    (hs : c.states = []) (bp : Option Breakpoint) (hover : Bool) :
    (∃ refusal, resolve catalog options (c.varied bp hover) = .refused refusal) ∨
      (resolve catalog options c).isMapped = true ∧
        resolve catalog options (c.varied bp hover) = resolve catalog options c := by
  rcases resolve_cases catalog options (c.varied bp hover) with hr | ⟨selection, hsel, hr⟩
  · exact .inl hr
  · have same : attempts catalog options (c.varied bp hover) = attempts catalog options c := by
      rw [c.varied_eq hs]
      exact UtilityClass.attempts_congr rfl rfl catalog options
    rw [same] at hsel
    have plain := resolve_of_no_variants hb hs hsel
    exact .inr ⟨by rw [plain]; rfl, hr.trans plain.symm⟩

/-- The lead that the variants make: the screen outside, the state inside. -/
theorem variants_varied (hs : c.states = []) (bp : Option Breakpoint) (hover : Bool) :
    ((c.varied bp hover).resolved catalog options).variants =
      (bp.map fun bp => (bp.target options.strategy).screen.name ++ ":").getD "" ++
        if hover then "hover:" else "" := by
  have lead : hoverState ++ ":" = "hover:" := rfl
  rw [c.varied_eq hs]
  cases bp <;> cases hover <;>
    simp [UtilityClass.resolved, ResolvedClass.variants, variantLead, String.join_cons, lead]

/-- Importance is marked behind the variants, so they come in front of whatever was written. -/
theorem dressed_varied (hb : c.breakpoint = none) (hs : c.states = []) (bp : Option Breakpoint)
    (hover : Bool) (text : String) :
    ((c.varied bp hover).resolved catalog options).dressed text =
      (bp.map fun bp => (bp.target options.strategy).screen.name ++ ":").getD "" ++
        (if hover then "hover:" else "") ++ (c.resolved catalog options).dressed text := by
  have plain : (c.resolved catalog options).variants = "" := by
    simp [UtilityClass.resolved, ResolvedClass.variants, variantLead, hb, hs]
  have important : ((c.varied bp hover).resolved catalog options).source.important =
      (c.resolved catalog options).source.important := by
    rw [c.varied_eq hs]
    rfl
  rw [ResolvedClass.dressed, ResolvedClass.dressed, variants_varied hs, plain, important,
    String.empty_append]

/-- A class with a tier, the state `hover` or both either stays as it is or is resolved exactly as
without them; it stays if it does without them. When it is mapped, it is composed to the classes
that it has without them, with the screen and then the state in front of each. -/
theorem resolve_varied (catalog : Catalog) (options : Options) {c : UtilityClass}
    (hb : c.breakpoint = none) (hs : c.states = []) (bp : Option Breakpoint) (hover : Bool) :
    ((∃ kind message,
        resolve catalog options (c.varied bp hover) = .passthrough kind message) ∨
      resolve catalog options (c.varied bp hover) = resolve catalog options c) ∧
    ((resolve catalog options c).isMapped = false →
      (resolve catalog options (c.varied bp hover)).isMapped = false) ∧
    ((resolve catalog options (c.varied bp hover)).isMapped = true →
      (compose [(c.varied bp hover).resolved catalog options]).classes =
        (compose [c.resolved catalog options]).classes.map fun text =>
          (bp.map fun bp => (bp.target options.strategy).screen.name ++ ":").getD "" ++
            (if hover then "hover:" else "") ++ text) := by
  rcases resolve_varied_cases catalog options hb hs bp hover with ⟨refusal, hr⟩ | ⟨mapped, hr⟩
  · rw [hr]
    refine ⟨.inl ⟨_, _, rfl⟩, fun _ => rfl, fun h => ?_⟩
    cases h
  · refine ⟨.inr hr, fun h => by rwa [hr], fun _ => ?_⟩
    rw [classes_compose_singleton, classes_compose_singleton]
    cases ho : resolve catalog options c with
    | passthrough _ _ =>
      rw [ho] at mapped
      cases mapped
    | mapped kind texts note =>
      have out : ((c.varied bp hover).resolved catalog options).resolution =
        .mapped kind texts note := hr.trans ho
      have out' : (c.resolved catalog options).resolution = .mapped kind texts note := ho
      simp only [ResolvedClass.classes, out, out', List.map_map]
      exact List.map_congr_left fun text _ => dressed_varied hb hs bp hover text

/-- Two rules apply, and the one that admits no screen has the shorter key. -/
theorem card_lift_varied : ∃ (catalog : Catalog) (c : UtilityClass),
    c.breakpoint = none ∧ c.states = [] ∧ c.important = true ∧
    (resolve catalog {} (c.varied (some .xxl) true)).isMapped = true ∧
    (compose [(c.varied (some .xxl) true).resolved catalog {}]).classes =
      ["2xl:hover:!shadow", "2xl:hover:after:!content-[a:b]"] := by
  let catalog : Catalog :=
    { vocabulary := .ofStems [⟨"card", ⟨true, true⟩⟩]
      tables := [
        ⟨"palette", [(Rule.color "card" "shadow").withoutBreakpoints]⟩,
        ⟨"theme", [.composite "card-lift" [.literal "shadow", .literal "after:content-[a:b]"]]⟩]
      colors := .ofEntries [("lift", ⟨"rose", some 500⟩)] }
  let c : UtilityClass :=
    { token := ⟨"!card-lift", 0⟩, stem := "card", value := some "lift", important := true }
  have mapped : (resolve catalog {} (c.varied (some .xxl) true)).isMapped = true ∧
      (compose [c.resolved catalog {}]).classes = ["!shadow", "after:!content-[a:b]"] := by
    decide +kernel
  obtain ⟨mapped, classes⟩ := mapped
  refine ⟨catalog, c, rfl, rfl, rfl, mapped, ?_⟩
  rw [(resolve_varied catalog {} (c := c) rfl rfl (some .xxl) true).2.2 mapped, classes]
  decide +kernel

end Restyle
