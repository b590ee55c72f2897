import Restyle.Proofs.Concatenation

namespace Restyle

def Options.withStrategy (options : Options) (strategy : BreakpointStrategy) : Options :=
  { options with strategy }

namespace ResolvedClass

/-- The class with the screen that the strategy puts in the place of its breakpoint. -/
def retargeted (c : ResolvedClass) (strategy : BreakpointStrategy) : ResolvedClass :=
  { c with screen := c.source.breakpoint.map (Breakpoint.target strategy) }

variable (c : ResolvedClass) (a b : BreakpointStrategy)

theorem variants_retargeted : (c.retargeted a).variants = (c.retargeted b).variants := by
  unfold variants retargeted variantLead
  cases c.source.breakpoint <;> rfl

theorem classes_retargeted : (c.retargeted a).classes = (c.retargeted b).classes := by
  have dressed : (c.retargeted a).dressed = (c.retargeted b).dressed := by
    funext text
    rw [ResolvedClass.dressed, ResolvedClass.dressed, c.variants_retargeted a b]
    rfl
  unfold classes
  rw [dressed]
  rfl

theorem warning?_retargeted : (c.retargeted a).warning? = c.warning? := rfl

/-- A class that is kept needs no screens, whatever breakpoint was written in it. -/
theorem needsCustomScreens_retargeted_iff : (c.retargeted a).needsCustomScreens = true ↔
    a = .exact ∧ c.source.breakpoint ≠ none ∧ c.resolution.isMapped = true := by
  unfold needsCustomScreens retargeted
  cases c.source.breakpoint with
  | none => simp
  | some bp => simp [Breakpoint.target, and_comm]

end ResolvedClass

/-- A conversion asks for no screens, or for the custom ones because some class needs them. -/
theorem screens_compose_eq_some_iff {cs : List ResolvedClass} {table : List ScreenSpec} :
    (compose cs).screens = some table ↔
      table = customScreens ∧ ∃ c ∈ cs, c.needsCustomScreens = true := by
  rw [← List.any_eq_true, compose]
  cases cs.any ResolvedClass.needsCustomScreens with
  | false => simp
  | true => simp [eq_comm]

section

variable (catalog : Catalog) (options : Options)

/-- Rules are looked up, tried and chosen without the strategy. -/
theorem resolve_withStrategy (strategy : BreakpointStrategy) (c : UtilityClass) :
    resolve catalog (options.withStrategy strategy) c = resolve catalog options c := rfl

theorem resolveToken_withStrategy (strategy : BreakpointStrategy) (token : Token) :
    resolveToken catalog (options.withStrategy strategy) token =
      (resolveToken catalog options token).retargeted strategy := by
  simp only [resolveToken, UtilityClass.resolved, resolve_withStrategy, ResolvedClass.retargeted]
  rfl

theorem convertTokens_withStrategy (strategy : BreakpointStrategy) (tokens : List Token) :
    convertTokens catalog (options.withStrategy strategy) tokens =
      compose (tokens.map fun token =>
        (resolveToken catalog options token).retargeted strategy) := by
  rw [convertTokens, List.map_congr_left fun token _ =>
    resolveToken_withStrategy catalog options strategy token]

/-- Under the exact strategy a mapped token with a breakpoint is written for the screen of the same
rank. The screens that come with the conversion have all of Tailwind's names, and give the one that
is written the width of the breakpoint. -/
theorem convert_defines_screen {text : String} {token : Token} {bp : Breakpoint}
    (ht : token ∈ tokenize text)
    (hb : (UtilityClass.parse catalog.vocabulary token).breakpoint = some bp)
    (mapped :
      (resolveToken catalog (options.withStrategy .exact) token).resolution.isMapped = true) :
    (resolveToken catalog (options.withStrategy .exact) token).screen = some ⟨bp.screen, true⟩ ∧
      ∃ screens, (convert catalog (options.withStrategy .exact) text).screens = some screens ∧
        screens.map ScreenSpec.name = Screen.all.map Screen.name ∧
        screens.find? (fun spec => spec.name == bp.screen.name) =
          some ⟨bp.screen.name, bp.minWidth, .tailwind⟩ := by
  have screen : (resolveToken catalog (options.withStrategy .exact) token).screen =
      some ⟨bp.screen, true⟩ := by
    rw [resolveToken, UtilityClass.resolved, hb]
    rfl
  have needed :
      (resolveToken catalog (options.withStrategy .exact) token).needsCustomScreens = true := by
    rw [ResolvedClass.needsCustomScreens, mapped, screen]
    rfl
  refine ⟨screen, customScreens, ?_, names_customScreens, find?_customScreens bp⟩
  exact screens_compose_eq_some_iff.mpr ⟨rfl, _, List.mem_map_of_mem ht, needed⟩

end

/-- A text has the same classes and the same warnings under both strategies. Under the nearest one a
conversion never asks for screens. Under the exact one it asks for the custom screens if some token
with a breakpoint is mapped, and otherwise for none: a breakpoint in a token that is kept does not
count. -/
theorem convert_withStrategy (catalog : Catalog) (options : Options) (text : String) :
    (convert catalog (options.withStrategy .exact) text).classes =
      (convert catalog (options.withStrategy .nearest) text).classes ∧
    (convert catalog (options.withStrategy .exact) text).warnings =
      (convert catalog (options.withStrategy .nearest) text).warnings ∧
    (convert catalog (options.withStrategy .nearest) text).screens = none ∧
    ∀ table, (convert catalog (options.withStrategy .exact) text).screens = some table ↔
      table = customScreens ∧ ∃ token ∈ tokenize text,
        (UtilityClass.parse catalog.vocabulary token).breakpoint ≠ none ∧
          (resolve catalog (options.withStrategy .exact)
            (UtilityClass.parse catalog.vocabulary token)).isMapped = true := by
  simp only [convert, convertTokens_withStrategy]
  refine ⟨?_, ?_, ?_, fun table => ?_⟩
  · simp only [compose, List.flatMap_map]
    exact List.flatMap_congr fun token _ => ResolvedClass.classes_retargeted _ .exact .nearest
  · simp only [compose, List.filterMap_map, Function.comp_def, ResolvedClass.warning?_retargeted]
  · rw [Option.eq_none_iff_forall_ne_some]
    intro table asked
    obtain ⟨_, c, hc, needed⟩ := screens_compose_eq_some_iff.mp asked
    obtain ⟨token, _, rfl⟩ := List.mem_map.mp hc
    obtain ⟨exact, _⟩ := (ResolvedClass.needsCustomScreens_retargeted_iff _ _).mp needed
    cases exact
  · rw [screens_compose_eq_some_iff]
    simp only [List.mem_map, exists_exists_and_eq_and,
      ResolvedClass.needsCustomScreens_retargeted_iff, source_resolveToken,
      resolution_resolveToken, resolve_withStrategy, true_and]

end Restyle
