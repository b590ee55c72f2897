import Restyle.Proofs.CanonicalSplit
import Restyle.Proofs.Registration

namespace Restyle

/-- Two stems of one length that match one text have one name. -/
theorem Stem.Matches.name_eq {a b : Stem} {text : String} (ha : a.Matches text)
    (hb : b.Matches text) (size : a.name.utf8ByteSize = b.name.utf8ByteSize) :
    a.name = b.name := by
  rcases covers_chain (matches_iff.mp ha) (matches_iff.mp hb) with he | ⟨more, he⟩ | ⟨more, he⟩
  · exact he
  · exact absurd size (Nat.ne_of_lt (size_lt_of_append he))
  · exact absurd size (Nat.ne_of_gt (size_lt_of_append he))

namespace Vocabulary

variable {v : Vocabulary} {registered : List Stem} {new stem : Stem} {text : String}

theorem matched_ofStems :
    (ofStems registered).Matched text ↔ ∃ stem ∈ registered, stem.Matches text := by
  have names : ∀ {stems : List Stem}, (∃ stem ∈ stems, stem.Matches text) ↔
      ∃ name ∈ stems.map Stem.name, Stem.covers name text = true := by
    simp [Stem.matches_iff]
  rw [Matched, names, names]
  simp only [mem_names_ofStems]

/-- After some registrations the longest stem of a text has the one registered name that matches and
is longer than all other names that do. -/
theorem longest_ofStems_iff : (ofStems registered).Longest text stem ↔
    (stem.name ∈ registered.map Stem.name ∧
      stem.variants = Stem.registeredVariants registered stem.name) ∧ stem.Matches text ∧
      ∀ other ∈ registered, other.Matches text → other.name ≠ stem.name →
        other.name.utf8ByteSize < stem.name.utf8ByteSize := by
  constructor
  · intro h
    refine ⟨mem_ofStems.mp h.mem, h.fits, fun other ho fits ne => ?_⟩
    -- The vocabulary has the name of this registration, with the variants of all of them.
    have held : (⟨other.name, Stem.registeredVariants registered other.name⟩ : Stem) ∈
        (ofStems registered).stems :=
      mem_ofStems.mpr ⟨List.mem_map.mpr ⟨other, ho, rfl⟩, rfl⟩
    have le := h.size_le _ held fits
    exact Nat.lt_of_le_of_ne le fun size => ne (fits.name_eq h.fits size)
  · intro h
    obtain ⟨held, fits, longer⟩ := h
    refine ⟨mem_ofStems.mpr held, fits, fun other ho hf => ?_⟩
    obtain ⟨first, hr, name⟩ := List.mem_map.mp (mem_ofStems.mp ho).1
    rw [Stem.Matches, ← name] at hf
    rw [← name]
    by_cases same : first.name = stem.name
    · exact Nat.le_of_eq (congrArg String.utf8ByteSize same)
    · exact Nat.le_of_lt (longer first hr hf same)

/-- The stem matches the text and is longer than the longest stem that it has, if it has one. -/
structure Overtakes (v : Vocabulary) (text : String) (new : Stem) : Prop where
  fits : new.Matches text
  longer : ∀ old, v.longestMatch text = some old → old.name.utf8ByteSize < new.name.utf8ByteSize

theorem longestMatch_register_of_overtakes (lacks : v.Lacks new.name)
    (h : v.Overtakes text new) : (v.register new).longestMatch text = some new := by
  rw [longestMatch_eq_some_iff_longest]
  refine ⟨(mem_register lacks).mpr (.inl rfl), h.fits, fun other ho hf => ?_⟩
  rcases (mem_register lacks).mp ho with rfl | ho
  · exact Nat.le_refl _
  · obtain ⟨old, hold⟩ := Option.ne_none_iff_exists'.mp
      (longestMatch_ne_none_iff_matched.mpr ⟨other, ho, hf⟩)
    calc other.name.utf8ByteSize
      _ ≤ old.name.utf8ByteSize := (longestMatch_eq_some_iff_longest.mp hold).size_le other ho hf
      _ ≤ new.name.utf8ByteSize := Nat.le_of_lt (h.longer old hold)

theorem longestMatch_register_of_not_overtakes (lacks : v.Lacks new.name)
    (h : ¬ v.Overtakes text new) : (v.register new).longestMatch text = v.longestMatch text := by
  cases hv : v.longestMatch text with
  | none =>
    have unfit : ¬ new.Matches text := fun fits => h ⟨fits, by simp [hv]⟩
    rw [Stem.matches_iff, Bool.not_eq_true] at unfit
    exact (longestMatch_register_eq_none_iff lacks).mpr ⟨unfit, hv⟩
  | some old =>
    have longest := longestMatch_eq_some_iff_longest.mp hv
    rw [longestMatch_eq_some_iff_longest]
    refine ⟨(mem_register lacks).mpr (.inr longest.mem), longest.fits, fun other ho hf => ?_⟩
    rcases (mem_register lacks).mp ho with rfl | ho
    · refine Nat.le_of_not_lt fun shorter => h ⟨hf, fun found hfound => ?_⟩
      rw [hv, Option.some.injEq] at hfound
      rwa [← hfound]
    · exact longest.size_le other ho hf

/-- After any registrations a text has no longest stem just if no registered name matches it, and
otherwise the one that matches and has more bytes than all others that do, with all the variants
registered for it. A new name changes that just if its stem overtakes the one so far, and then to
its own stem. -/
theorem longestMatch_registered (registered : List Stem) (text : String) :
    ((ofStems registered).longestMatch text = none ↔ ∀ stem ∈ registered, ¬ stem.Matches text) ∧
    (∀ found, (ofStems registered).longestMatch text = some found ↔
      (found.name ∈ registered.map Stem.name ∧
        found.variants = Stem.registeredVariants registered found.name) ∧ found.Matches text ∧
        ∀ stem ∈ registered, stem.Matches text → stem.name ≠ found.name →
          stem.name.utf8ByteSize < found.name.utf8ByteSize) ∧
    ∀ new : Stem, new.name ∉ registered.map Stem.name →
      (((ofStems registered).register new).longestMatch text ≠
          (ofStems registered).longestMatch text ↔ (ofStems registered).Overtakes text new) ∧
      (((ofStems registered).register new).longestMatch text ≠
          (ofStems registered).longestMatch text →
        ((ofStems registered).register new).longestMatch text = some new) := by
  refine ⟨?_, fun found => longestMatch_eq_some_iff_longest.trans longest_ofStems_iff, ?_⟩
  · rw [← not_iff_not, ← Ne, longestMatch_ne_none_iff_matched, matched_ofStems]
    simp
  · intro new unregistered
    have lacks : (ofStems registered).Lacks new.name := by
      intro stem hs same
      exact unregistered (same ▸ (mem_ofStems.mp hs).1)
    by_cases h : (ofStems registered).Overtakes text new
    · have found := longestMatch_register_of_overtakes lacks h
      have absent : (ofStems registered).longestMatch text ≠ some new := fun held =>
        lacks new (longestMatch_eq_some_iff_longest.mp held).mem rfl
      exact ⟨iff_of_true (found ▸ absent.symm) h, fun _ => found⟩
    · have kept := longestMatch_register_of_not_overtakes lacks h
      exact ⟨iff_of_false (not_not_intro kept) h, fun changed => absurd kept changed⟩

/-- The stem `text-bg` overtakes `text` where `text-b` does not match. -/
theorem text_bg_overtakes_text :
    "text-bg" ∉ ([⟨"text", { responsive := true }⟩, ⟨"text-b", .plain⟩] : List Stem).map Stem.name ∧
    ((ofStems [⟨"text", { responsive := true }⟩, ⟨"text-b", .plain⟩]).register
      ⟨"text-bg", .plain⟩).longestMatch "text-bg-primary" = some ⟨"text-bg", .plain⟩ := by
  have unregistered :
      "text-bg" ∉ ([⟨"text", { responsive := true }⟩, ⟨"text-b", .plain⟩] : List Stem).map
        Stem.name := by decide
  obtain ⟨changes, changed⟩ :=
    (longestMatch_registered _ "text-bg-primary").2.2 ⟨"text-bg", .plain⟩ unregistered
  refine ⟨unregistered, changed (changes.mpr ⟨.inr ⟨"primary", by decide, rfl⟩, ?_⟩)⟩
  intro old hold
  have text : some (⟨"text", { responsive := true }⟩ : Stem) = some old := hold
  obtain rfl := Option.some.inj text
  decide

end Vocabulary

end Restyle
