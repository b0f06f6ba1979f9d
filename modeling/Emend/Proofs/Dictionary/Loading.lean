import Emend.Proofs.Artifact.BufferSize
import Emend.Proofs.Artifact.Join
import Emend.Proofs.Dictionary.Lines
import Emend.Proofs.Dictionary.Validation
import Emend.Proofs.Table.Acceptance

/-! What reading a dictionary promises to its table: no typo is refused any more, and the lengths
that the table records are lengths of typos that the typing buffer has room for. -/
namespace Emend

namespace VettedDictionary
variable {name : String} {source : List UInt8} {words : WordList} {least : Nat}
  {d : VettedDictionary}

/-- The pairs are those of admissible lines, each with a typo. -/
theorem exists_lines (h : ofBytes name source words least = .ok d) : ∃ ls,
    Line.parseAll source = .ok ls ∧ Admissible ls ∧ (∀ l ∈ ls, l.typo ≠ "") ∧
      d.dictionary.pairs = (Line.firsts ls).map Line.pair := by
  obtain ⟨ls, hls, haccept, -⟩ := ofBytes_eq_ok.mp h
  obtain ⟨hadmissible, hpairs⟩ := accept_eq_ok haccept
  exact ⟨ls, hls, hadmissible, fun l hl => Line.typo_ne_empty hls hl, hpairs⟩

theorem exists_line (h : ofBytes name source words least = .ok d) {p : Pair}
    (hp : p ∈ d.dictionary.pairs) : p.typo ≠ "" ∧
      (∀ c ∈ p.typo.toList, Alphabet.contains c = true) ∧ p.typo.length ≤ typoLimit := by
  obtain ⟨ls, -, hadmissible, hne, hpairs⟩ := exists_lines h
  rw [hpairs] at hp
  obtain ⟨l, hl, rfl⟩ := List.mem_map.mp hp
  have hl := Line.mem_of_mem_firsts hl
  exact ⟨hne l hl, List.all_eq_true.mp (hadmissible.written l hl), hadmissible.fits l hl⟩

theorem storable (h : ofBytes name source words least = .ok d) : Storable d.dictionary.pairs := by
  refine ⟨fun p hp => ?_, (disjoint h).imp fun hd => ?_⟩
  · obtain ⟨hne, hwritten, -⟩ := exists_line h hp
    exact Pair.typeable_iff.mpr ⟨hne, hwritten⟩
  · exact ⟨fun hs => hd.1 hs.isInfix, fun hs => hd.2 hs.isInfix⟩

theorem pairs_eq_nil (h : ofBytes name source words least = .ok d) : d.dictionary.pairs = [] ↔
    ∀ bytes ∈ Text.splitLines source, ¬ Line.HoldsPair bytes := by
  obtain ⟨ls, hls, -, -, hpairs⟩ := exists_lines h
  rw [hpairs, List.map_eq_nil_iff, ← Line.eq_nil_of_parseAll hls]
  constructor
  · intro hnil
    refine List.eq_nil_iff_forall_not_mem.mpr fun l hl => ?_
    obtain ⟨k, hk, -⟩ := Line.exists_mem_firsts hl
    rw [hnil] at hk
    cases hk
  · rintro rfl
    rfl

end VettedDictionary

namespace Artifact
variable {a : Artifact} {t : Table} {ts : List Table}

/-- A table is among those whose regions an artifact holds. -/
def Holds (a : Artifact) (t : Table) : Prop := ∃ position, t.region position ∈ a.regions

theorem holds_of_ofTables (h : ofTables ts = .ok a) (ht : t ∈ ts) : a.Holds t := by
  obtain ⟨-, rfl⟩ := ofTables_eq_ok.mp h
  obtain ⟨i, hi⟩ := List.getElem?_of_mem ht
  exact ⟨_, List.mem_of_getElem? (getElem?_joined hi)⟩

end Artifact

namespace Table
variable {title : String} {ps : List Pair} {t : Table} {n : Nat}

theorem toNat_storedLength (h : n ≤ 0xFFFF) : (storedLength n).toNat = n := by
  have hmin : min n 0xFFFF = n := Nat.min_eq_left h
  rw [storedLength, hmin]
  exact UInt16.toNat_ofNat_of_lt' (Nat.lt_succ_of_le h)

/-- The recorded lengths are those of a shortest and of a longest typo. -/
structure Spans (t : Table) (ps : List Pair) : Prop where
  shortest : ∃ p ∈ ps, t.shortest.toNat = p.typo.length
  longest : ∃ p ∈ ps, t.longest.toNat = p.typo.length
  bounds : ∀ p ∈ ps, t.shortest.toNat ≤ p.typo.length ∧ p.typo.length ≤ t.longest.toNat

theorem spans_of_compile (h : compile title ps = .ok t)
    (hfits : ∀ p ∈ ps, p.typo.length ≤ 0xFFFF) : t.Spans ps := by
  obtain ⟨tree, hc⟩ := compile_eq_ok.mp h
  have hne : ps.map Pair.typoLength ≠ [] := by simpa using hc.nonempty
  obtain ⟨low, hlow⟩ := Option.isSome_iff_exists.mp (List.isSome_min?_of_ne_nil hne)
  obtain ⟨high, hhigh⟩ := Option.isSome_iff_exists.mp (List.isSome_max?_of_ne_nil hne)
  obtain ⟨hlowmem, hlowle⟩ := List.min?_eq_some_iff.mp hlow
  obtain ⟨hhighmem, hhighle⟩ := List.max?_eq_some_iff.mp hhigh
  obtain ⟨p, hp, rfl⟩ := List.mem_map.mp hlowmem
  obtain ⟨q, hq, rfl⟩ := List.mem_map.mp hhighmem
  have hshortest : t.shortest.toNat = p.typo.length := by
    rw [hc.shortest, shortestTypo, hlow]
    exact toNat_storedLength (hfits p hp)
  have hlongest : t.longest.toNat = q.typo.length := by
    rw [hc.longest, longestTypo, hhigh]
    exact toNat_storedLength (hfits q hq)
  refine ⟨⟨p, hp, hshortest⟩, ⟨q, hq, hlongest⟩, fun r hr => ?_⟩
  rw [hshortest, hlongest]
  have hr := List.mem_map_of_mem (f := Pair.typoLength) hr
  exact ⟨hlowle _ hr, hhighle _ hr⟩

/-- Pairs whose typos can be stored are refused for other reasons only. -/
theorem not_typo_of_storable {e : CompileError} (hps : Storable ps)
    (h : compile title ps = .error e) : (∀ correction, e ≠ .emptyTypo correction) ∧
      (∀ typo c, e ≠ .foreignCharacter typo c) ∧ (∀ typo, e ≠ .overlap typo) ∧
      (e = .noPairs title ↔ ps = []) := by
  cases refusal_of_compile h with
  | empty hnil he => simp [hnil, he]
  | typo hfit => exact (hfit (typosFit_iff.mpr hps)).elim
  | edit hfit hedit =>
    obtain ⟨p, hp, -, hwhy⟩ := hedit
    have hne : ps ≠ [] := List.ne_nil_of_mem hp
    cases e <;> simp_all [Pair.Inexpressible]
  | size _ _ hsize =>
    obtain ⟨es, size, hes, -, -, rfl⟩ := hsize
    have hne : ps ≠ [] := by
      rintro rfl
      cases h
    simp [hne]

/-- A dictionary that was read is never refused for a typo, and as empty only if no line of its
source holds a pair. Its table records the lengths of a shortest and of a longest typo, and every
artifact with that table has a typing buffer that each typo fits in. -/
theorem compile_loaded {name : String} {source : List UInt8} {words : WordList} {least : Nat}
    {d : VettedDictionary} (hd : VettedDictionary.ofBytes name source words least = .ok d)
    (title : String) :
    (∀ e, compile title d.dictionary.pairs = .error e → (∀ correction, e ≠ .emptyTypo correction) ∧
      (∀ typo c, e ≠ .foreignCharacter typo c) ∧ ∀ typo, e ≠ .overlap typo) ∧
    (compile title d.dictionary.pairs = .error (.noPairs title) ↔
      ∀ bytes ∈ Text.splitLines source, ¬ Line.HoldsPair bytes) ∧
    ∀ t, compile title d.dictionary.pairs = .ok t → t.Spans d.dictionary.pairs ∧
      (t.shortest.toNat ≤ 127 ∧ t.longest.toNat ≤ 127) ∧
      (∀ ts a, t ∈ ts → Artifact.ofTables ts = .ok a → a.Holds t) ∧
      ∀ a : Artifact, a.Holds t → ∀ p ∈ d.dictionary.pairs, p.typo.length ≤ a.bufferSize.toNat := by
  have hstorable := VettedDictionary.storable hd
  have hfits : ∀ p ∈ d.dictionary.pairs, p.typo.length ≤ 127 := fun p hp =>
    (VettedDictionary.exists_line hd hp).2.2
  refine ⟨fun e he => ?_, ?_, fun t ht => ?_⟩
  · obtain ⟨hempty, hforeign, hoverlap, -⟩ := not_typo_of_storable hstorable he
    exact ⟨hempty, hforeign, hoverlap⟩
  · rw [← VettedDictionary.pairs_eq_nil hd]
    constructor
    · intro h
      exact (not_typo_of_storable hstorable h).2.2.2.mp rfl
    · intro h
      rw [h, compile_nil]
  · have hspans := spans_of_compile ht fun p hp => Nat.le_trans (hfits p hp) (by decide)
    refine ⟨hspans, ⟨?_, ?_⟩, fun ts a hmem ha => Artifact.holds_of_ofTables ha hmem, ?_⟩
    · obtain ⟨p, hp, hlength⟩ := hspans.shortest
      exact hlength ▸ hfits p hp
    · obtain ⟨p, hp, hlength⟩ := hspans.longest
      exact hlength ▸ hfits p hp
    · rintro a ⟨position, hregion⟩ p hp
      exact Nat.le_trans (hspans.bounds p hp).2 (Artifact.longest_le_bufferSize hregion)

/-- The lines `hte -> the` and `nad -> and`, and a source with a comment alone. -/
theorem compile_loaded_hte :
    VettedDictionary.ofBytes "english" [104, 116, 101, 32, 45, 62, 32, 116, 104, 101, 10,
      110, 97, 100, 32, 45, 62, 32, 97, 110, 100, 10] .empty 0 =
        .ok ⟨⟨"english", [⟨"hte", "the"⟩, ⟨"nad", "and"⟩]⟩, []⟩ ∧
    (∃ t a, compile "english" [⟨"hte", "the"⟩, ⟨"nad", "and"⟩] = .ok t ∧ t.longest.toNat ≤ 127 ∧
      Artifact.ofTables [t] = .ok a ∧ a.Holds t ∧
      ∀ p ∈ [⟨"hte", "the"⟩, (⟨"nad", "and"⟩ : Pair)], p.typo.length ≤ a.bufferSize.toNat) ∧
    VettedDictionary.ofBytes "none" [35, 10] .empty 0 = .ok ⟨⟨"none", []⟩, []⟩ ∧
    ∀ bytes ∈ Text.splitLines [35, 10], ¬ Line.HoldsPair bytes := by
  have hd : VettedDictionary.ofBytes "english" [104, 116, 101, 32, 45, 62, 32, 116, 104, 101, 10,
      110, 97, 100, 32, 45, 62, 32, 97, 110, 100, 10] .empty 0 =
        .ok ⟨⟨"english", [⟨"hte", "the"⟩, ⟨"nad", "and"⟩]⟩, []⟩ := rfl
  have hnone : VettedDictionary.ofBytes "none" [35, 10] .empty 0 = .ok ⟨⟨"none", []⟩, []⟩ := rfl
  obtain ⟨t, ht⟩ := exists_compile_hte
  obtain ⟨-, ⟨-, hlongest⟩, hholds, hroom⟩ := (compile_loaded hd "english").2.2 t ht
  have ha : Artifact.ofTables [t] = .ok (Artifact.joined [t]) :=
    Artifact.ofTables_eq_ok.mpr ⟨by simp, rfl⟩
  have hheld := hholds [t] _ (List.mem_singleton_self t) ha
  exact ⟨hd, ⟨t, _, ht, hlongest, ha, hheld, hroom _ hheld⟩, hnone,
    (compile_loaded hnone "none").2.1.mp rfl⟩

end Table
end Emend
