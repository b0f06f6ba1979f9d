import Emend.Proofs.Bytes
import Emend.Proofs.Layout.Offsets
import Emend.Proofs.Lists

/-! The bytes of each entry. A table is written as the bytes of its entries one after the other. -/
namespace Emend

namespace Edit

theorem toList_leafBytes (e : Edit) : e.leafBytes.data.toList =
    (Alphabet.leafBit ||| e.backspaces) :: (e.suffix.toUTF8.data.toList ++ [0]) := by
  simp [leafBytes]

theorem length_leafBytes (e : Edit) : e.leafBytes.data.toList.length = e.byteLength := by
  simp [leafBytes, byteLength]

end Edit

/-- The links whose places are among the bytes. A chain goes on right behind itself. -/
def Entry.targets : Entry → List Nat
  | leaf _ _ => []
  | chain _ _ => []
  | branch links => links.map (·.2)

theorem Entry.targets_subset (e : Entry) : e.targets ⊆ e.links := by
  cases e with
  | leaf k edit => exact List.nil_subset _
  | chain codes next => exact List.nil_subset _
  | branch links => exact List.Subset.refl _

namespace LinkWidth

theorem length_littleEndian {count n : Nat} : (littleEndian count n).length = count := by
  induction count generalizing n with
  | zero => rfl
  | succ count ih => rw [littleEndian, List.length_cons, ih]

end LinkWidth

namespace Layout
variable {w : LinkWidth} {es : List Entry} {start : Nat → Nat} {flag : UInt8} {out : ByteArray}
  {links : List (UInt8 × Nat)} {e : Entry} {id : Nat}

/-- The bytes of a branch whose first code carries `flag`. Entry `id` begins at `start id`. -/
def branchBytes (w : LinkWidth) (start : Nat → Nat) (flag : UInt8) : List (UInt8 × Nat) → List UInt8
  | [] => [0]
  | (code, child) :: rest =>
    (code ||| flag) :: (LinkWidth.littleEndian w.bytes (start child) ++ branchBytes w start 0 rest)

def entryBytes (w : LinkWidth) (start : Nat → Nat) : Entry → List UInt8
  | .leaf _ edit => edit.leafBytes.data.toList
  | .chain codes _ => codes ++ [0]
  | .branch links => branchBytes w start Alphabet.branchBit links

theorem length_branchBytes :
    (branchBytes w start flag links).length = links.length * (1 + w.bytes) + 1 := by
  induction links generalizing flag with
  | nil => simp [branchBytes]
  | cons l links ih =>
    rw [branchBytes, List.length_cons, List.length_append, LinkWidth.length_littleEndian, ih,
      List.length_cons, Nat.succ_mul]
    omega

theorem length_entryBytes : (entryBytes w start e).length = e.byteLength w := by
  cases e with
  | leaf k edit => exact edit.length_leafBytes
  | chain codes next => simp [entryBytes, Entry.byteLength]
  | branch links => exact length_branchBytes

theorem length_flatMap_entryBytes (w : LinkWidth) (start : Nat → Nat) (es : List Entry) :
    (es.flatMap (entryBytes w start)).length = totalLength w es := by
  simp only [List.length_flatMap, length_entryBytes, totalLength]

/-! Writing. -/

theorem encode_startOf (hfits : Fits w es) :
    w.encode (startOf w es id).toUInt32.toNat =
      .ok (LinkWidth.littleEndian w.bytes (startOf w es id)) := by
  rw [hfits.toNat_startOf, LinkWidth.encode, if_pos (hfits.startOf_le id)]

/-- The first of some links that leads to no entry. -/
def missing? (es : List Entry) (ids : List Nat) : Option Nat :=
  ids.find? fun id => decide (es.length ≤ id)

theorem missing?_cons {ids : List Nat} :
    missing? es (id :: ids) = if id < es.length then missing? es ids else some id := by
  by_cases h : id < es.length
  · simp [missing?, h, Nat.not_le_of_lt h]
  · simp [missing?, h, Nat.le_of_not_lt h]

theorem missing?_append {ids ids' : List Nat} :
    missing? es (ids ++ ids') = (missing? es ids).or (missing? es ids') :=
  List.find?_append

theorem missing?_eq_none {ids : List Nat} :
    missing? es ids = none ↔ ∀ id ∈ ids, id < es.length := by
  simp [missing?]

theorem writeChildren_exact (hfits : Fits w es) (flag : UInt8) (links : List (UInt8 × Nat))
    (out : ByteArray) :
    match missing? es (links.map (·.2)) with
    | none => ∃ out', (exact w es).writeChildren flag links out = (out', none) ∧
        out'.data.toList = out.data.toList ++ branchBytes w (startOf w es) flag links
    | some id => ((exact w es).writeChildren flag links out).2 =
        some (.linkTooFar id w.bytes) := by
  induction links generalizing flag out with
  | nil => exact ⟨out.push 0, rfl, by simp [branchBytes]⟩
  | cons l links ih =>
    obtain ⟨code, child⟩ := l
    rw [List.map_cons, missing?_cons]
    by_cases hchild : child < es.length
    · have hrest := ih 0 ((LinkWidth.littleEndian w.bytes (startOf w es child)).foldl
        ByteArray.push (out.push (code ||| flag)))
      have hstep : (exact w es).writeChildren flag ((code, child) :: links) out =
          (exact w es).writeChildren 0 links ((LinkWidth.littleEndian w.bytes
            (startOf w es child)).foldl ByteArray.push (out.push (code ||| flag))) := by
        simp only [writeChildren, offset_exact hchild]
        rw [show (exact w es).width = w from rfl, encode_startOf hfits]
      rw [if_pos hchild, hstep]
      split
      next hnone =>
        rw [hnone] at hrest
        obtain ⟨out', hout, hbytes⟩ := hrest
        refine ⟨out', hout, ?_⟩
        rw [hbytes, toList_foldl_push, branchBytes]
        simp
      next id hsome =>
        rw [hsome] at hrest
        exact hrest
    · have hnone : (exact w es).offsets[child]? = none := by
        rw [exact, List.getElem?_toArray, getElem?_starts,
          List.getElem?_eq_none (Nat.le_of_not_lt hchild), Option.map_none]
      simp only [if_neg hchild, writeChildren, hnone]
      rfl

theorem writeEntry_exact (hfits : Fits w es) (e : Entry) (out : ByteArray) :
    match missing? es e.targets with
    | none => ∃ out', (exact w es).writeEntry out e = (out', none) ∧
        out'.data.toList = out.data.toList ++ entryBytes w (startOf w es) e
    | some id => ((exact w es).writeEntry out e).2 = some (.linkTooFar id w.bytes) := by
  cases e with
  | leaf k edit => exact ⟨out ++ edit.leafBytes, rfl, by simp [entryBytes]⟩
  | chain codes next =>
    refine ⟨(codes.foldl ByteArray.push out).push 0, rfl, ?_⟩
    rw [ByteArray.data_push, Array.toList_push, toList_foldl_push, entryBytes, List.append_assoc]
  | branch links => exact writeChildren_exact hfits Alphabet.branchBit links out

/-- The first link that leads nowhere stops the writing. -/
theorem writeEntries_exact (hfits : Fits w es) (fs : List Entry) (out : ByteArray) :
    match missing? es (fs.flatMap Entry.targets) with
    | none => ∃ data, (exact w es).writeEntries out fs = .ok data ∧
        data.data.toList = out.data.toList ++ fs.flatMap (entryBytes w (startOf w es))
    | some id => (exact w es).writeEntries out fs = .error (.linkTooFar id w.bytes) := by
  induction fs generalizing out with
  | nil => exact ⟨out, rfl, by simp⟩
  | cons e fs ih =>
    have hfirst := writeEntry_exact hfits e out
    rw [List.flatMap_cons, missing?_append]
    cases hmissing : missing? es e.targets with
    | some id =>
      rw [hmissing] at hfirst
      rw [Option.some_or, writeEntries]
      generalize (exact w es).writeEntry out e = r at hfirst
      obtain ⟨out', r⟩ := r
      cases hfirst
      rfl
    | none =>
      rw [hmissing] at hfirst
      obtain ⟨out', hout, hbytes⟩ := hfirst
      have hrest := ih out'
      simp only [Option.none_or, writeEntries, hout]
      split
      next hnone =>
        rw [hnone] at hrest
        obtain ⟨data, hdata, hlist⟩ := hrest
        refine ⟨data, hdata, ?_⟩
        rw [hlist, hbytes, List.flatMap_cons, List.append_assoc]
      next id hsome =>
        rw [hsome] at hrest
        exact hrest

/-- The bytes are always as many as the layout says, so only a link can be at fault. -/
theorem encode_spec (hfits : Fits w es) :
    match missing? es (es.flatMap Entry.targets) with
    | none => ∃ data, (exact w es).encode es = .ok data ∧
        data.data.toList = es.flatMap (entryBytes w (startOf w es))
    | some id => (exact w es).encode es = .error (.linkTooFar id w.bytes) := by
  have hwrite := writeEntries_exact hfits es ByteArray.empty
  rw [encode]
  split
  next hnone =>
    rw [hnone] at hwrite
    obtain ⟨data, hdata, hlist⟩ := hwrite
    rw [show ByteArray.empty.data.toList = [] from rfl, List.nil_append] at hlist
    have hsize : data.size = (exact w es).size.toNat := by
      rw [toNat_size_exact hfits, ← length_flatMap_entryBytes w (startOf w es) es, ← hlist]
      rfl
    exact ⟨data, by simp only [hdata, hsize, if_true], hlist⟩
  next id hsome =>
    rw [hsome] at hwrite
    simp only [hwrite]

/-- A layout that fits never fails to be filled. -/
theorem encode_exact (hfits : Fits w es) (hlinks : ∀ e ∈ es, ∀ l ∈ e.links, l < es.length) :
    ∃ data, (exact w es).encode es = .ok data ∧
      data.data.toList = es.flatMap (entryBytes w (startOf w es)) := by
  have hspec := encode_spec hfits
  have hnone : missing? es (es.flatMap Entry.targets) = none := by
    rw [missing?_eq_none]
    intro id hid
    obtain ⟨e, he, hid⟩ := List.mem_flatMap.mp hid
    exact hlinks e he id (e.targets_subset hid)
  rwa [hnone] at hspec

theorem drop_startOf (w : LinkWidth) (start : Nat → Nat) (h : es[id]? = some e) : ∃ rest,
    (es.flatMap (entryBytes w start)).drop (startOf w es id) = entryBytes w start e ++ rest := by
  have hdrop := drop_flatMap (entryBytes w start) h
  rw [length_flatMap_entryBytes] at hdrop
  exact ⟨_, hdrop⟩

end Layout
end Emend
