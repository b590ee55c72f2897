import Mathlib.Data.List.Induction
import Mathlib.Tactic.Tauto
import Restyle.Proofs.Coverage

namespace Restyle

namespace StemVariants

@[ext] theorem ext {a b : StemVariants} (responsive : a.responsive = b.responsive)
    (interactive : a.interactive = b.interactive) : a = b := by
  cases a; cases b; cases responsive; cases interactive; rfl

theorem plain_union (variants : StemVariants) : plain.union variants = variants := by
  cases variants
  rfl

end StemVariants

def Stem.registeredVariants (registered : List Stem) (name : String) : StemVariants :=
  (registered.filter fun stem => stem.name = name).foldl
    (fun all stem => all.union stem.variants) .plain

namespace Stem

variable {registered again : List Stem} {name : String}

theorem registeredVariants_concat (registered : List Stem) (new : Stem) (name : String) :
    registeredVariants (registered ++ [new]) name =
      if new.name = name then (registeredVariants registered name).union new.variants
      else registeredVariants registered name := by
  unfold registeredVariants
  by_cases h : new.name = name
  · simp [h]
  · simp [h]

theorem registeredVariants_of_not_mem (h : name ∉ registered.map Stem.name) :
    registeredVariants registered name = .plain := by
  have none : (registered.filter fun stem => stem.name = name) = [] := by
    simpa [List.filter_eq_nil_iff] using h
  rw [registeredVariants, none]
  rfl

/-- A name is responsive or interactive if one of its registrations is. -/
theorem registeredVariants_iff (registered : List Stem) (name : String) :
    ((registeredVariants registered name).responsive = true ↔
      ∃ stem ∈ registered, stem.name = name ∧ stem.variants.responsive = true) ∧
    ((registeredVariants registered name).interactive = true ↔
      ∃ stem ∈ registered, stem.name = name ∧ stem.variants.interactive = true) := by
  induction registered using List.reverseRecOn with
  | nil => simp [registeredVariants, StemVariants.plain]
  | append_singleton front new ih =>
    obtain ⟨responsive, interactive⟩ := ih
    rw [registeredVariants_concat]
    by_cases h : new.name = name
    · simp [h, StemVariants.union, responsive, interactive, or_and_right, exists_or]
    · simp [h, responsive, interactive, or_and_right, exists_or]

theorem registeredVariants_congr (same : ∀ stem, stem ∈ again ↔ stem ∈ registered)
    (name : String) : registeredVariants again name = registeredVariants registered name := by
  obtain ⟨responsive, interactive⟩ := registeredVariants_iff again name
  simp only [same] at responsive interactive
  obtain ⟨responsive', interactive'⟩ := registeredVariants_iff registered name
  ext
  · rw [Bool.eq_iff_iff, responsive, responsive']
  · rw [Bool.eq_iff_iff, interactive, interactive']

/-- A stem inserted is found under its name with its variants and those of the stem that was there;
every other name finds what it found before. -/
theorem find?_insertInto {new : Stem} {stems : List Stem} (ordered : stems.Pairwise Precedes)
    (name : String) :
    (insertInto new stems).find? (fun stem => stem.name == name) =
      if name = new.name then
        some ⟨name, (((stems.find? fun stem => stem.name == name).map Stem.variants).getD
          .plain).union new.variants⟩
      else stems.find? fun stem => stem.name == name := by
  induction stems with
  | nil =>
    by_cases h : name = new.name
    · simp [insertInto, h, StemVariants.plain_union]
    · simp [insertInto, h, Ne.symm h]
  | cons s rest ih =>
    obtain ⟨first, later⟩ := List.pairwise_cons.mp ordered
    rw [insertInto]
    split
    · next same =>
      by_cases h : name = new.name
      · simp [h, same]
      · simp [same, h, Ne.symm h]
    · next other =>
      split
      · next before =>
        by_cases h : name = new.name
        · -- All stems stand behind the new one, so none of them has its name.
          have absent : (s :: rest).find? (fun stem => stem.name == name) = none := by
            rw [List.find?_eq_none]
            intro t ht
            have behind : new.Precedes t := by
              rcases List.mem_cons.mp ht with rfl | ht
              · exact before
              · exact before.trans (first t ht)
            simpa [h] using (name_ne_of_precedes behind).symm
          rw [if_pos h, absent]
          simp [h, StemVariants.plain_union]
        · simp [h, Ne.symm h]
      · rw [List.find?_cons, List.find?_cons, ih later]
        by_cases h : name = new.name
        · have passed : (s.name == new.name) = false := by simp [other]
          simp [h, passed]
        · simp [h]

end Stem

namespace Vocabulary

variable {v : Vocabulary} {registered again : List Stem} {stem : Stem} {name : String}

theorem get?_register (v : Vocabulary) (new : Stem) (name : String) :
    (v.register new).get? name =
      if name = new.name then some ⟨name, (v.variantsOf name).union new.variants⟩
      else v.get? name :=
  Stem.find?_insertInto v.ordered name

theorem mem_stems_iff : stem ∈ v.stems ↔ v.get? stem.name = some stem :=
  ⟨get?_of_mem, List.mem_of_find?_eq_some⟩

/-- A name that is not registered has no variants, found or not. -/
theorem variantsOf_of_get? (h : v.get? name =
      if name ∈ registered.map Stem.name then some ⟨name, Stem.registeredVariants registered name⟩
      else none) :
    v.variantsOf name = Stem.registeredVariants registered name := by
  unfold variantsOf
  rw [h]
  split
  · rfl
  · next absent => exact (Stem.registeredVariants_of_not_mem absent).symm

/-- A registered name is found with the variants of all its registrations, and no other name is. -/
theorem get?_ofStems (registered : List Stem) (name : String) :
    (ofStems registered).get? name =
      if name ∈ registered.map Stem.name then some ⟨name, Stem.registeredVariants registered name⟩
      else none := by
  induction registered using List.reverseRecOn with
  | nil => rfl
  | append_singleton front new ih =>
    have step : ofStems (front ++ [new]) = (ofStems front).register new := by
      rw [ofStems, List.foldl_append]
      rfl
    rw [step, get?_register, variantsOf_of_get? ih, Stem.registeredVariants_concat, ih]
    by_cases h : name = new.name
    · simp [h]
    · simp [h, Ne.symm h]

theorem variantsOf_ofStems (registered : List Stem) (name : String) :
    (ofStems registered).variantsOf name = Stem.registeredVariants registered name :=
  variantsOf_of_get? (get?_ofStems registered name)

theorem mem_ofStems : stem ∈ (ofStems registered).stems ↔
    stem.name ∈ registered.map Stem.name ∧
      stem.variants = Stem.registeredVariants registered stem.name := by
  rw [mem_stems_iff, get?_ofStems]
  obtain ⟨name, variants⟩ := stem
  by_cases h : name ∈ registered.map Stem.name
  · simp [h, eq_comm]
  · simp [h]

theorem ofStems_congr (same : ∀ stem, stem ∈ again ↔ stem ∈ registered) :
    ofStems again = ofStems registered := by
  refine eq_of_mem_iff fun stem => ?_
  simp only [mem_ofStems, Stem.registeredVariants_congr same, List.mem_map, same]

/-- Registrations give every name that is registered exactly one stem, which has the union of the
variants registered for it; longer names stand first, names of one length in alphabetical order. So
the same registrations in another order, or made more than once, give the same vocabulary, and every
token is read the same. -/
theorem ofStems_canonical (registered : List Stem) :
    (∀ name, ((ofStems registered).stems.map Stem.name).count name =
      if name ∈ registered.map Stem.name then 1 else 0) ∧
    ((ofStems registered).stems.Pairwise fun a b =>
      b.name.utf8ByteSize < a.name.utf8ByteSize ∨
        a.name.utf8ByteSize = b.name.utf8ByteSize ∧ a.name < b.name) ∧
    (∀ stem ∈ (ofStems registered).stems,
      stem.variants = Stem.registeredVariants registered stem.name) ∧
    ∀ again : List Stem, (∀ stem, stem ∈ again ↔ stem ∈ registered) →
      ofStems again = ofStems registered ∧
        ∀ token, UtilityClass.parse (ofStems again) token =
          UtilityClass.parse (ofStems registered) token := by
  refine ⟨fun name => ?_, (ofStems registered).ordered, fun stem hs => (mem_ofStems.mp hs).2,
    fun again same => ?_⟩
  · rw [(nodup_names _).count]
    simp only [mem_names_ofStems]
  · have equal := ofStems_congr same
    exact ⟨equal, fun token => by rw [equal]⟩

/-- Two registrations of one name, two names of one length, and a name of fewer characters that has
more bytes. -/
theorem ofStems_link_twice :
    ofStems [⟨"link", .plain⟩, ⟨"été", .plain⟩, ⟨"link", { responsive := true }⟩,
        ⟨"card", .plain⟩, ⟨"link", { interactive := true }⟩, ⟨"card", .plain⟩] =
      ofStems [⟨"link", { interactive := true }⟩, ⟨"link", { responsive := true }⟩,
        ⟨"card", .plain⟩, ⟨"link", .plain⟩, ⟨"été", .plain⟩] ∧
    (ofStems [⟨"link", { interactive := true }⟩, ⟨"link", { responsive := true }⟩,
        ⟨"card", .plain⟩, ⟨"link", .plain⟩, ⟨"été", .plain⟩]).stems =
      [⟨"été", .plain⟩, ⟨"card", .plain⟩, ⟨"link", ⟨true, true⟩⟩] := by
  refine ⟨((ofStems_canonical _).2.2.2 _ fun stem => ?_).1, rfl⟩
  simp only [List.mem_cons, List.not_mem_nil, or_false]
  tauto

end Vocabulary

end Restyle
