import Emend.Proofs.Layout.Bytes
import Emend.Proofs.Layout.Narrowest

/-! Whatever the entries are, their bytes stand where the layout has put them, unless a branch has a
link to an entry that is not there. -/
namespace Emend.Layout
variable {w : LinkWidth} {es : List Entry} {l : Layout} {name : String} {data : ByteArray}
  {e : Entry} {i : Nat}

/-- Links of branches lead to entries. -/
def Linked (es : List Entry) : Prop := ∀ e ∈ es, ∀ id ∈ e.targets, id < es.length

theorem linked_iff : Linked es ↔ missing? es (es.flatMap Entry.targets) = none := by
  rw [missing?_eq_none, List.forall_mem_flatMap]
  exact Iff.rfl

theorem exists_missing (h : ¬ Linked es) :
    ∃ id, missing? es (es.flatMap Entry.targets) = some id := by
  rw [linked_iff] at h
  exact Option.ne_none_iff_exists'.mp h

theorem exists_encode_iff (hfits : Fits w es) :
    (∃ data, (exact w es).encode es = .ok data) ↔ Linked es := by
  have hspec := encode_spec hfits
  rw [linked_iff]
  constructor
  · rintro ⟨data, hdata⟩
    cases hmissing : missing? es (es.flatMap Entry.targets) with
    | none => rfl
    | some id =>
      rw [hmissing, hdata] at hspec
      cases hspec
  · intro hnone
    rw [hnone] at hspec
    obtain ⟨data, hdata, -⟩ := hspec
    exact ⟨data, hdata⟩

theorem bytes_of_encode (hfits : Fits w es) (h : (exact w es).encode es = .ok data) :
    data.data.toList = es.flatMap (entryBytes w (startOf w es)) := by
  have hspec := encode_spec hfits
  rw [linked_iff.mp ((exists_encode_iff hfits).mp ⟨data, h⟩)] at hspec
  obtain ⟨data', hdata, hbytes⟩ := hspec
  rw [h] at hdata
  cases hdata
  exact hbytes

theorem size_of_encode (hfits : Fits w es) (h : (exact w es).encode es = .ok data) :
    data.size = totalLength w es := by
  rw [← length_flatMap_entryBytes w (startOf w es) es, ← bytes_of_encode hfits h]
  rfl

/-- The bytes of an entry are those that it would have behind any others. -/
theorem writeEntry_of_encode (hfits : Fits w es) (h : (exact w es).encode es = .ok data)
    (he : es[i]? = some e) (out : ByteArray) : (exact w es).writeEntry out e =
      (out ++ data.extract (startOf w es i) (startOf w es i + e.byteLength w), none) := by
  have hwrite := writeEntry_exact hfits e out
  have hlinked := (exists_encode_iff hfits).mp ⟨data, h⟩
  rw [missing?_eq_none.mpr (hlinked e (List.mem_of_getElem? he))] at hwrite
  obtain ⟨out', hout, hbytes⟩ := hwrite
  obtain ⟨rest, hrest⟩ := drop_startOf w (startOf w es) he
  have hextract : (data.extract (startOf w es i) (startOf w es i + e.byteLength w)).data.toList =
      entryBytes w (startOf w es) e := by
    rw [toList_extract, bytes_of_encode hfits h, hrest]
    exact List.take_left' length_entryBytes
  rw [hout]
  refine congrArg (·, none) (ByteArray.ext (Array.ext' ?_))
  rw [hbytes, ByteArray.data_append, Array.toList_append, hextract]

/-- The entries can be written exactly if links of branches lead to entries. Then each of them has
its bytes between its own place and the end of its length, and all of them have the length that the
layout says. Otherwise the first link that leads nowhere is blamed; the length is never at fault. -/
theorem encode_in_place (h : narrowest name es = .ok l) :
    ((∃ data, l.encode es = .ok data) ↔ ∀ e ∈ es, ∀ id ∈ e.targets, id < es.length) ∧
    (∀ data, l.encode es = .ok data → data.size = l.size.toNat ∧
      ∀ (i : Nat) (e : Entry), es[i]? = some e → ∃ o : UInt32, l.offsets[i]? = some o ∧
        o.toNat + e.byteLength l.width ≤ data.size ∧
        ∀ out, l.writeEntry out e =
          (out ++ data.extract o.toNat (o.toNat + e.byteLength l.width), none)) ∧
    ((¬ ∀ e ∈ es, ∀ id ∈ e.targets, id < es.length) → ∃ before id after,
      es.flatMap Entry.targets = before ++ id :: after ∧ (∀ j ∈ before, j < es.length) ∧
        es.length ≤ id ∧ l.encode es = .error (.linkTooFar id l.width.bytes)) ∧
    ∀ expected actual, l.encode es ≠ .error (.unexpectedSize expected actual) := by
  obtain ⟨w, hfits, rfl⟩ := exact_of_narrowest h
  refine ⟨exists_encode_iff hfits, fun data hdata => ⟨?_, fun i e he => ?_⟩, fun hno => ?_,
    fun expected actual hwrong => ?_⟩
  · rw [size_of_encode hfits hdata, toNat_size_exact hfits]
  · have hi := (List.getElem?_eq_some_iff.mp he).1
    refine ⟨_, offset_exact hi, ?_, fun out => ?_⟩
    · rw [hfits.toNat_startOf, size_of_encode hfits hdata]
      have hend := startOf_le w es (i + 1)
      rwa [startOf_succ he] at hend
    · rw [hfits.toNat_startOf]
      exact writeEntry_of_encode hfits hdata he out
  · obtain ⟨id, hid⟩ := exists_missing hno
    have hspec := encode_spec hfits
    rw [hid] at hspec
    obtain ⟨hmissing, before, after, hsplit, hbefore⟩ := List.find?_eq_some_iff_append.mp hid
    exact ⟨before, id, after, hsplit, by simpa using hbefore, by simpa using hmissing, hspec⟩
  · have hspec := encode_spec hfits
    split at hspec
    · obtain ⟨data, hdata, -⟩ := hspec
      rw [hdata] at hwrong
      cases hwrong
    · rw [hspec] at hwrong
      cases hwrong

/-- A branch that leads back to itself and twice to one entry, with a chain between that goes on
nowhere. -/
def tangled (child : Nat) : List Entry :=
  [.branch [(0, 0), (255, 2), (255, child)], .chain [0, 7] 90, .leaf 40 ⟨200, "é"⟩]

theorem encode_in_place_tangled :
    (∃ l data, narrowest "d" (tangled 2) = .ok l ∧ l.encode (tangled 2) = .ok data ∧
      data.size = 17 ∧ l.writeEntry ⟨#[9]⟩ (.chain [0, 7] 90) =
        (⟨#[9]⟩ ++ data.extract 10 13, none)) ∧
    ∃ l, narrowest "d" (tangled 3) = .ok l ∧ ∃ before id after,
      (tangled 3).flatMap Entry.targets = before ++ id :: after ∧ (∀ j ∈ before, j < 3) ∧ 3 ≤ id ∧
        l.encode (tangled 3) = .error (.linkTooFar id 2) := by
  have hplaced (child : Nat) : narrowest "d" (tangled child) = .ok ⟨.two, #[0, 10, 13], 17⟩ := rfl
  obtain ⟨hiff, hok, -, -⟩ := encode_in_place (hplaced 2)
  obtain ⟨-, -, herror, -⟩ := encode_in_place (hplaced 3)
  obtain ⟨data, hdata⟩ := hiff.mpr (by decide)
  obtain ⟨hsize, hentries⟩ := hok data hdata
  obtain ⟨o, ho, -, hwrite⟩ := hentries 1 (.chain [0, 7] 90) rfl
  cases ho
  exact ⟨⟨_, data, hplaced 2, hdata, hsize, hwrite _⟩, _, hplaced 3, herror (by decide)⟩

end Emend.Layout
