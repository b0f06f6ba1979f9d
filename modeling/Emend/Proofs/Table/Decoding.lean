import Emend.Proofs.Edit.Leaf
import Emend.Proofs.Table.Tiling

/-! Entries read back from their bytes, one after the other. Links are found as places, and a place
is the number of the entry that begins there. Only the numbers of the pairs are not in the bytes. -/
namespace Emend

/-- The entry with its links changed. -/
def Entry.relink (f : Nat → Nat) : Entry → Entry
  | leaf k edit => leaf k edit
  | chain codes next => chain codes (f next)
  | branch links => branch (links.map fun l => (l.1, f l.2))

/-- The entry without the number of a pair. -/
def Entry.anonymous (e : Entry) : Entry := e.renumber fun _ => 0

/-- Entry `id` of `count` that can be told from its bytes. -/
def Entry.Legible (count id : Nat) : Entry → Prop
  | leaf _ edit => edit.backspaces.toNat ≤ 63 ∧ isAscii edit.suffix = true ∧
      Edit.nul ∉ edit.suffix.toList
  | chain codes next => codes ≠ [] ∧ (∀ c ∈ codes, Alphabet.IsCode c) ∧ next = id + 1 ∧ next < count
  | branch links => links ≠ [] ∧ ∀ l ∈ links, Alphabet.IsCode l.1 ∧ l.2 < count

instance (c : UInt8) : Decidable (Alphabet.IsCode c) :=
  inferInstanceAs (Decidable (0 < c.toNat ∧ c.toNat < 64))

instance (count id : Nat) : (e : Entry) → Decidable (e.Legible count id)
  | .leaf _ edit => inferInstanceAs (Decidable (edit.backspaces.toNat ≤ 63 ∧
      isAscii edit.suffix = true ∧ Edit.nul ∉ edit.suffix.toList))
  | .chain codes next => inferInstanceAs (Decidable (codes ≠ [] ∧
      (∀ c ∈ codes, Alphabet.IsCode c) ∧ next = id + 1 ∧ next < count))
  | .branch links => inferInstanceAs (Decidable (links ≠ [] ∧
      ∀ l ∈ links, Alphabet.IsCode l.1 ∧ l.2 < count))

namespace Layout
open Scan (At Written byteAt)
open Walk (kindOf readCodes readLinks)

/-- All entries can be told from their bytes. -/
def Legible (es : List Entry) : Prop := ∀ p ∈ es.zipIdx, p.1.Legible es.length p.2

instance (es : List Entry) : Decidable (Legible es) :=
  inferInstanceAs (Decidable (∀ p ∈ es.zipIdx, p.1.Legible es.length p.2))

/-- The entry at a place, with places for its links. A chain goes on right behind itself. -/
def readEntry (w : LinkWidth) (data : ByteArray) (position : Nat) : Except Halt Entry := do
  let b ← byteAt data position
  match kindOf b with
  | .leaf => match Edit.readLeaf? (data.data.toList.drop position) with
    | some (edit, _) => return .leaf 0 edit
    | none => throw .outside
  | .chain =>
    let (codes, stop) ← readCodes data position
    return .chain codes stop
  | .branch =>
    let links ← readLinks w data Alphabet.branchBit position
    return .branch links

/-- The entries from a place on, up to the end of the data. -/
def readEntries (w : LinkWidth) (data : ByteArray) (position : Nat) :
    Except Halt (List Entry) :=
  if position < data.size then do
    let e ← readEntry w data position
    let rest ← readEntries w data (position + e.byteLength w)
    return e :: rest
  else .ok []
termination_by data.size - position
decreasing_by
  have := e.byteLength_pos w
  omega

/-- The number of the entry that begins at a place. -/
def numberAt (w : LinkWidth) (es : List Entry) (place : Nat) : Nat :=
  ((List.range es.length).map (startOf w es)).idxOf place

/-- The entries that the data are made of. -/
def decode (w : LinkWidth) (data : ByteArray) : Except Halt (List Entry) := do
  let es ← readEntries w data 0
  return es.map (Entry.relink (numberAt w es))

variable {w : LinkWidth} {data : ByteArray} {es fs : List Entry} {e : Entry} {l m : Layout}
  {edit : Edit} {id position : Nat}

theorem Legible.of_getElem? (h : Legible es) (he : es[id]? = some e) : e.Legible es.length id := by
  apply h (e, id)
  exact List.mk_mem_zipIdx_iff_getElem?.mpr he

/-! One entry. -/

/-- What is read where an entry is, if entry `i` begins at `start i`. -/
def readAs (start : Nat → Nat) (e : Entry) : Entry := (e.relink start).anonymous

theorem byteLength_readAs (start : Nat → Nat) (e : Entry) :
    (readAs start e).byteLength w = e.byteLength w := by
  cases e with
  | leaf k edit => rfl
  | chain codes next => rfl
  | branch links => simp [readAs, Entry.relink, Entry.anonymous, Entry.renumber, Entry.byteLength]

theorem readEntry_leaf (h : At data position edit.leafBytes.data.toList)
    (hcount : edit.backspaces.toNat ≤ 63) (hascii : isAscii edit.suffix = true)
    (hnul : Edit.nul ∉ edit.suffix.toList) :
    readEntry w data position = .ok (.leaf 0 edit) := by
  have hzero : 0 ∉ edit.suffix.toUTF8.data.toList := by
    have hall : ∀ c ∈ edit.suffix.toList, c.toNat < 0x80 := by simpa [isAscii] using hascii
    have hlist := Edit.zero_not_mem_toUTF8 hall hnul
    rwa [String.ofList_toList] at hlist
  obtain ⟨rest, hrest⟩ := h
  have hat : At data position edit.leafBytes.data.toList := ⟨rest, hrest⟩
  rw [edit.toList_leafBytes] at hat hrest
  have hread : Edit.readLeaf? (data.data.toList.drop position) = some (edit, rest) := by
    rw [← hrest, List.cons_append, List.append_assoc]
    exact Edit.readLeaf?_cons hcount hzero
  rw [readEntry, hat.byteAt]
  simp only [bind, Except.bind, Walk.kindOf_leaf, hread]
  rfl

theorem readEntry_chain {codes : List UInt8} (h : At data position (codes ++ [0]))
    (hne : codes ≠ []) (hcode : ∀ c ∈ codes, Alphabet.IsCode c) :
    readEntry w data position = .ok (.chain codes (position + codes.length + 1)) := by
  have hread := Walk.readCodes_chain h hcode
  obtain ⟨c, codes, rfl⟩ := List.exists_cons_of_ne_nil hne
  rw [readEntry, At.byteAt h]
  simp only [bind, Except.bind, Walk.kindOf_code (hcode c List.mem_cons_self), hread]
  rfl

theorem readEntry_branch {start : Nat → Nat} {links : List (UInt8 × Nat)}
    (h : At data position (branchBytes w start Alphabet.branchBit links)) (hne : links ≠ [])
    (hcode : ∀ l ∈ links, Alphabet.IsCode l.1) (hreach : ∀ l ∈ links, start l.2 < 256 ^ w.bytes) :
    readEntry w data position = .ok (.branch (links.map fun l => (l.1, start l.2))) := by
  have hread := Walk.readLinks_branchBytes h (fun he => (hne he).elim) (Or.inr rfl) hcode hreach
  obtain ⟨l, links, rfl⟩ := List.exists_cons_of_ne_nil hne
  rw [branchBytes] at h
  rw [readEntry, h.byteAt]
  simp only [bind, Except.bind, Walk.kindOf_branchCode (hcode l List.mem_cons_self), hread]
  rfl

theorem readEntry_startOf (hw : Written w data es) (h : Legible es) (he : es[id]? = some e) :
    readEntry w data (startOf w es id) = .ok (readAs (startOf w es) e) := by
  have hat := hw.at he
  have hlegible := h.of_getElem? he
  cases e with
  | leaf k edit =>
    obtain ⟨hcount, hascii, hnul⟩ := hlegible
    exact readEntry_leaf hat hcount hascii hnul
  | chain codes next =>
    obtain ⟨hne, hcode, rfl, -⟩ := hlegible
    rw [readEntry_chain hat hne hcode, readAs, Entry.relink, startOf_succ he]
    rfl
  | branch links =>
    obtain ⟨hne, hlinks⟩ := hlegible
    exact readEntry_branch hat hne (fun l hl => (hlinks l hl).1) fun l _ => hw.startOf_lt l.2

/-! All entries. -/

theorem size_of_written (hw : Written w data es) : data.size = startOf w es es.length := by
  rw [startOf_length, ← length_flatMap_entryBytes w (startOf w es) es, ← hw.bytes]
  rfl

/-- From the start of each entry the rest of them are read; the induction goes from the end of the
data to its front. -/
theorem readEntries_startOf (hw : Written w data es) (h : Legible es) (hid : id ≤ es.length) :
    readEntries w data (startOf w es id) = .ok ((es.drop id).map (readAs (startOf w es))) := by
  have hsize := size_of_written hw
  induction hid using Nat.decreasingInduction with
  | self =>
    rw [readEntries, if_neg (by omega), List.drop_length]
    rfl
  | of_succ id hid ih =>
    have he := List.getElem?_eq_getElem hid
    have hlt := startOf_lt_startOf (w := w) hid (Nat.le_refl es.length)
    rw [readEntries, if_pos (by omega), readEntry_startOf hw h he, List.drop_eq_getElem_cons hid]
    simp only [bind, Except.bind, byteLength_readAs, ← startOf_succ he, ih]
    rfl

theorem startOf_map_readAs (start : Nat → Nat) :
    startOf w (es.map (readAs start)) id = startOf w es id := by
  simp only [startOf, totalLength, ← List.map_take, List.map_map, Function.comp_def,
    byteLength_readAs]

/-- No two entries begin at one place. -/
theorem nodup_starts : ((List.range es.length).map (startOf w es)).Nodup := by
  apply List.pairwise_map.mpr
  apply List.pairwise_lt_range.imp_of_mem
  intro i j _ hj hij
  rw [List.mem_range] at hj
  exact Nat.ne_of_lt (startOf_lt_startOf hij (Nat.le_of_lt hj))

theorem numberAt_startOf (start : Nat → Nat) (hid : id < es.length) :
    numberAt w (es.map (readAs start)) (startOf w es id) = id := by
  have hstarts : (List.range (es.map (readAs start)).length).map
      (startOf w (es.map (readAs start))) = (List.range es.length).map (startOf w es) := by
    simp [startOf_map_readAs]
  have hget : ((List.range es.length).map (startOf w es))[id]? = some (startOf w es id) := by
    simp [hid]
  obtain ⟨hlt, hget⟩ := List.getElem?_eq_some_iff.mp hget
  rw [numberAt, hstarts, ← hget]
  exact nodup_starts.idxOf_getElem id hlt

/-- Links that were places are numbers again. -/
theorem relink_readAs {start number : Nat → Nat} (he : ∀ i ∈ e.links, number (start i) = i) :
    (readAs start e).relink number = e.anonymous := by
  cases e with
  | leaf k edit => rfl
  | chain codes next =>
    have hnext : number (start next) = next := he next (List.mem_singleton.mpr rfl)
    simp only [readAs, Entry.relink, Entry.anonymous, Entry.renumber, hnext]
  | branch links =>
    have hlinks : links.map (fun l => (l.1, number (start l.2))) = links.map id := by
      apply List.map_congr_left
      intro l hl
      rw [he l.2 (List.mem_map_of_mem hl)]
      rfl
    simp only [readAs, Entry.relink, Entry.anonymous, Entry.renumber, List.map_map,
      Function.comp_def, hlinks, List.map_id]

theorem Legible.links_lt (h : Legible es) : ∀ e ∈ es, ∀ i ∈ e.links, i < es.length := by
  intro e he i hi
  obtain ⟨id, hid⟩ := List.getElem?_of_mem he
  have hlegible := h.of_getElem? hid
  cases e with
  | leaf k edit => cases hi
  | chain codes next =>
    rw [List.mem_singleton.mp hi]
    exact hlegible.2.2.2
  | branch links =>
    obtain ⟨l, hl, rfl⟩ := List.mem_map.mp hi
    exact (hlegible.2 l hl).2

theorem decode_of_written (hw : Written w data es) (h : Legible es) :
    decode w data = .ok (es.map Entry.anonymous) := by
  have hread := readEntries_startOf hw h (Nat.zero_le es.length)
  rw [show startOf w es 0 = 0 from rfl, List.drop_zero] at hread
  rw [decode, hread]
  simp only [bind, Except.bind, pure, Except.pure, List.map_map]
  congr 1
  apply List.map_congr_left
  intro e he
  apply relink_readAs
  intro i hi
  exact numberAt_startOf _ (h.links_lt e he i hi)

theorem exists_written (h : Legible es) (hl : under w es = .ok l) :
    ∃ data, l.encode es = .ok data ∧ Written w data es := by
  have hspec := under_spec w es
  rw [hl] at hspec
  obtain ⟨hfits, rfl⟩ := hspec
  obtain ⟨data, hdata, hbytes⟩ := encode_exact hfits h.links_lt
  exact ⟨data, hdata, hfits, hbytes⟩

/-- Entries are read back from their bytes, without the numbers of their pairs. So no others have
the same bytes. -/
theorem decode_encode_legible (h : Legible es) (hl : under w es = .ok l) :
    ∃ data, l.encode es = .ok data ∧ decode w data = .ok (es.map Entry.anonymous) ∧
      ∀ fs m, Legible fs → under w fs = .ok m → m.encode fs = .ok data →
        fs.map Entry.anonymous = es.map Entry.anonymous := by
  obtain ⟨data, hdata, hw⟩ := exists_written h hl
  have hdecoded := decode_of_written hw h
  refine ⟨data, hdata, hdecoded, ?_⟩
  intro fs m hfs hm hsame
  obtain ⟨data', hdata', hw'⟩ := exists_written hfs hm
  rw [hsame] at hdata'
  cases hdata'
  have hother := decode_of_written hw' hfs
  rw [hdecoded] at hother
  exact (Except.ok.inj hother).symm

/-- A branch, a chain behind it and two leaves, one of them of pair `k`. The links have zero
bytes. -/
def sample (k : Nat) : List Entry :=
  [.branch [(5, 1), (44, 3)], .chain [8, 23] 2, .leaf k ⟨2, "the"⟩, .leaf 4 ⟨0, ""⟩]

theorem decode_encode_legible_sample : Legible (sample 7) ∧
    ∃ l data, under .three (sample 7) = .ok l ∧ l.encode (sample 7) = .ok data ∧
      decode .three data = .ok ((sample 7).map Entry.anonymous) ∧
      l.encode (sample 9) = .ok data ∧
      (sample 9).map Entry.anonymous = (sample 7).map Entry.anonymous := by
  have h : Legible (sample 7) := by decide +kernel
  have hl : under .three (sample 7) = .ok ⟨.three, #[0, 9, 12, 17], 19⟩ := rfl
  obtain ⟨data, hdata, hdecode, hsame⟩ := decode_encode_legible h hl
  exact ⟨h, _, data, hl, hdata, hdecode, hdata, hsame (sample 9) _ (by decide +kernel) rfl hdata⟩

end Layout
end Emend
