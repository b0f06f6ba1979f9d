import Emend.Proofs.Dictionary.Validation
import Emend.Proofs.Table.Matching

/-! A typo of a dictionary is acted on when its last key is pressed, and nothing is before. -/
namespace Emend

/-- The first `k` characters of the typo. -/
def Pair.typedPart (p : Pair) (k : Nat) : String := String.ofList (p.typo.toList.take k)

namespace Table
variable {title : String} {ps : List Pair} {t : Table} {tree : RadixTree} {typed : List UInt8}
  {s : String} {i j k : Nat} {p q : Pair}

theorem exists_keys?_typedPart (hp : p.Typeable) (k : Nat) :
    ∃ typed, keys? (p.typedPart k) = some typed := by
  obtain ⟨ks, hks⟩ := Option.isSome_iff_exists.mp hp.2
  refine ⟨ks.take k, ?_⟩
  rw [keys?_eq_some, Pair.typedPart, String.toList_ofList, List.map_take, keys?_eq_some.mp hks,
    List.map_take]

theorem suffix_of_completedBy (h : p.CompletedBy typed) (hs : keys? s = some typed) :
    p.typo.toList <:+ s.toList := by
  obtain ⟨ks, hks, hsuf⟩ := h
  exact (suffix_iff_of_keys? hks hs).mpr hsuf

/-- A typo that is completed while another is typed occurs in it. -/
theorem infix_of_completedBy (h : q.CompletedBy typed)
    (hs : keys? (p.typedPart k) = some typed) : q.typo.toList <:+: p.typo.toList := by
  have hsuf := suffix_of_completedBy h hs
  rw [Pair.typedPart, String.toList_ofList] at hsuf
  exact hsuf.isInfix.trans (List.take_prefix k _).isInfix

theorem eq_of_infix (hps : ps.Pairwise Pair.Disjoint) (hi : ps[i]? = some p)
    (hj : ps[j]? = some q) (h : q.typo.toList <:+: p.typo.toList) : j = i :=
  index_eq_of_pairwise hps hj hi (fun hd => hd.1 h) fun hd => hd.2 h

/-- A part of a typo completes that typo alone, and only if it is all of it. -/
theorem completedBy_typedPart (hk : k ≤ p.typo.length)
    (hs : keys? (p.typedPart k) = some typed) : p.CompletedBy typed ↔ k = p.typo.length := by
  constructor
  · intro h
    have hle := (suffix_of_completedBy h hs).length_le
    rw [Pair.typedPart, String.toList_ofList, List.length_take, String.length_toList] at hle
    omega
  · rintro rfl
    refine ⟨typed, ?_, List.suffix_refl typed⟩
    rwa [Pair.typedPart, ← String.length_toList, List.take_length, String.ofList_toList] at hs

/-- Typing a typo of a dictionary key by key reaches no leaf until the last key, and then its
own. -/
theorem scan_typedPart {name : String} {source : List UInt8} {words : WordList} {least : Nat}
    {d : VettedDictionary} (hd : VettedDictionary.ofBytes name source words least = .ok d)
    (ht : compile title d.dictionary.pairs = .ok t) (hi : d.dictionary.pairs[i]? = some p)
    (hk : k ≤ p.typo.length) : ∃ typed, keys? (p.typedPart k) = some typed ∧
      ((∃ place, t.scan typed = .ok place) ↔ k = p.typo.length) ∧
      ∀ place, t.scan typed = .ok place → t.LeafAt i place := by
  obtain ⟨tree, hc⟩ := compile_eq_ok.mp ht
  have hmem := List.mem_of_getElem? hi
  obtain ⟨typed, htyped⟩ := exists_keys?_typedPart (hc.storable.1 p hmem) k
  have hkeys : ∀ key ∈ typed, key ≠ 0 := fun key hkey =>
    Scan.ne_zero_of_isCode (isCode_of_keys? htyped key hkey)
  have hself := completedBy_typedPart hk htyped
  -- Whatever is completed on the way occurs in the typo, so it is the typo itself.
  have honly : ∀ j q, d.dictionary.pairs[j]? = some q → q.CompletedBy typed → j = i :=
    fun j q hj hdone => eq_of_infix (VettedDictionary.disjoint hd) hi hj
      (infix_of_completedBy hdone htyped)
  refine ⟨typed, htyped, ?_, ?_⟩
  · rw [hc.exists_scan_iff hkeys, ← hself]
    constructor
    · rintro ⟨q, hq, hdone⟩
      obtain ⟨j, hj⟩ := List.getElem?_of_mem hq
      rw [honly j q hj hdone, hi] at hj
      cases hj
      exact hdone
    · intro hdone
      exact ⟨p, hmem, hdone⟩
  · intro place hplace
    obtain ⟨j, q, hj, hdone, hleaf⟩ := hc.leaf_of_scan hkeys hplace
    rwa [honly j q hj hdone] at hleaf

/-- The lines `hte -> the` and `nad -> and`. -/
theorem scan_typedPart_hte : ∃ d t,
    VettedDictionary.ofBytes "english" [104, 116, 101, 32, 45, 62, 32, 116, 104, 101, 10,
      110, 97, 100, 32, 45, 62, 32, 97, 110, 100, 10] .empty 0 = .ok d ∧
    compile "english" d.dictionary.pairs = .ok t ∧
    (∃ typed, keys? "ht" = some typed ∧ ¬ ∃ place, t.scan typed = .ok place) ∧
    ∃ typed place, keys? "hte" = some typed ∧ t.scan typed = .ok place ∧ t.LeafAt 0 place := by
  have hpairs : (VettedDictionary.ofBytes "english" [104, 116, 101, 32, 45, 62, 32, 116, 104, 101,
      10, 110, 97, 100, 32, 45, 62, 32, 97, 110, 100, 10] .empty 0).toOption.map
        (·.dictionary.pairs) = some [⟨"hte", "the"⟩, ⟨"nad", "and"⟩] := rfl
  generalize hd : VettedDictionary.ofBytes _ _ _ _ = r at hpairs ⊢
  cases r with
  | error e => cases hpairs
  | ok d =>
    have hps : d.dictionary.pairs = [⟨"hte", "the"⟩, ⟨"nad", "and"⟩] := Option.some.inj hpairs
    obtain ⟨t, ht⟩ := exists_compile_hte
    rw [← hps] at ht
    have hp : d.dictionary.pairs[0]? = some ⟨"hte", "the"⟩ := by rw [hps]; rfl
    obtain ⟨part, hpart, hno, -⟩ := scan_typedPart hd ht hp (show 2 ≤ 3 by decide)
    obtain ⟨whole, hwhole, hyes, hleaf⟩ := scan_typedPart hd ht hp (show 3 ≤ 3 by decide)
    obtain ⟨place, hplace⟩ := hyes.mpr rfl
    exact ⟨d, t, rfl, ht, ⟨part, hpart, fun h => absurd (hno.mp h) (by decide)⟩,
      whole, place, hwhole, hplace, hleaf place hplace⟩

end Table
end Emend
