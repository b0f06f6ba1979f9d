import Emend.Proofs.Table.Walk

/-! The entries of a table lie one behind the other and fill it. A walk over the bytes meets exactly
these entries, in the order in which they lie. -/
namespace Emend

namespace Walk
variable {start : Nat → Nat} {es : List Entry} {i : Nat} {v : Visit}

theorem getElem?_visitsOf : (visitsOf start 0 es)[i]? = es[i]?.map (visitOf start i) := by
  rw [visitsOf, List.getElem?_mapIdx, Nat.zero_add]

theorem exists_of_mem_visitsOf (h : v ∈ visitsOf start 0 es) :
    ∃ i e, es[i]? = some e ∧ v = visitOf start i e := by
  obtain ⟨i, hi⟩ := List.getElem?_of_mem h
  rw [getElem?_visitsOf] at hi
  obtain ⟨e, he, rfl⟩ := Option.map_eq_some_iff.mp hi
  exact ⟨i, e, he, rfl⟩

end Walk

namespace Table
variable {name : String} {ps : List Pair} {t : Table} {tree : RadixTree}

/-- The visits are those of the entries, each in its place. Each entry ends where the next begins,
and the last of them with the data. -/
structure Tiled (t : Table) (visits : List Visit) : Prop where
  positions : visits.map Visit.position = t.layout.offsets.toList.map UInt32.toNat
  first : visits.head?.map Visit.position = some 0
  ascending : (visits.map Visit.position).Pairwise (· < ·)
  kinds : visits.map Visit.kind = t.entries.map Entry.kind
  codes : ∀ v ∈ visits, ∀ c ∈ v.codes, 1 ≤ c.toNat ∧ c.toNat ≤ 63
  choices : ∀ v ∈ visits, v.kind = .branch → v.codes.Pairwise (· < ·)
  links : ∀ v ∈ visits, ∀ next ∈ v.next, v.position < next ∧ next < t.data.size
  ends : ∀ {i v e}, visits[i]? = some v → t.entries[i]? = some e →
    v.position + e.byteLength t.layout.width =
      (visits[i + 1]?.map Visit.position).getD t.data.size

/-- What is met in a table: its entries, each in its place. -/
def visits (t : Table) : List Visit :=
  Walk.visitsOf (startOf t.layout.width t.entries) 0 t.entries

theorem getElem?_visits {i : Nat} : t.visits[i]? =
    t.entries[i]?.map (Walk.visitOf (startOf t.layout.width t.entries) i) :=
  Walk.getElem?_visitsOf

theorem exists_of_mem_visits {v : Visit} (h : v ∈ t.visits) : ∃ i e, t.entries[i]? = some e ∧
    v = Walk.visitOf (startOf t.layout.width t.entries) i e :=
  Walk.exists_of_mem_visitsOf h

theorem ascending_visits (t : Table) : (t.visits.map Visit.position).Pairwise (· < ·) := by
  rw [List.pairwise_map, List.pairwise_iff_getElem]
  intro i j hi hj hij
  obtain ⟨e, he, hv⟩ := Option.map_eq_some_iff.mp
    (getElem?_visits.symm.trans (List.getElem?_eq_getElem hi))
  obtain ⟨f, hf, hw⟩ := Option.map_eq_some_iff.mp
    (getElem?_visits.symm.trans (List.getElem?_eq_getElem hj))
  rw [← hv, ← hw]
  exact startOf_lt_startOf hij (Nat.le_of_lt (List.getElem?_eq_some_iff.mp hf).1)

theorem kinds_visits (t : Table) : t.visits.map Visit.kind = t.entries.map Entry.kind := by
  refine List.ext_getElem? fun i => ?_
  rw [List.getElem?_map, getElem?_visits, List.getElem?_map]
  cases t.entries[i]? <;> rfl

namespace Compiled

theorem entries_length_pos (h : Compiled name ps t tree) : 0 < t.entries.length :=
  (RadixTree.links_flatten h.flatten).1

theorem positions_visits (h : Compiled name ps t tree) :
    t.visits.map Visit.position = t.layout.offsets.toList.map UInt32.toNat := by
  refine List.ext_getElem? fun i => ?_
  rw [List.getElem?_map, getElem?_visits, List.getElem?_map, Array.getElem?_toList,
    h.layout_eq.1, Layout.exact, List.getElem?_toArray, Layout.getElem?_starts, Nat.zero_add]
  cases t.entries[i]? with
  | none => rfl
  | some e => exact congrArg some (UInt32.toNat_ofNat_of_lt' (h.written.startOf_lt_word i)).symm

theorem codes_visits (h : Compiled name ps t tree) :
    ∀ v ∈ t.visits, ∀ c ∈ v.codes, 1 ≤ c.toNat ∧ c.toNat ≤ 63 := by
  intro v hv c hc
  obtain ⟨i, e, he, rfl⟩ := exists_of_mem_visits hv
  have hcode : Alphabet.IsCode c := by
    cases e with
    | leaf k edit => cases hc
    | chain codes next => exact (RadixTree.chain_of_canonical h.canonical h.flatten he).2.1 c hc
    | branch links =>
      obtain ⟨l, hl, rfl⟩ := List.mem_map.mp hc
      exact (RadixTree.branch_of_canonical h.canonical h.flatten he).2.1 l hl
  exact ⟨hcode.1, Nat.le_of_lt_succ hcode.2⟩

theorem choices_visits (h : Compiled name ps t tree) :
    ∀ v ∈ t.visits, v.kind = .branch → v.codes.Pairwise (· < ·) := by
  intro v hv hkind
  obtain ⟨i, e, he, rfl⟩ := exists_of_mem_visits hv
  cases e with
  | leaf k edit => cases hkind
  | chain codes next => cases hkind
  | branch links => exact (RadixTree.branch_of_canonical h.canonical h.flatten he).2.2

theorem links_visits (h : Compiled name ps t tree) :
    ∀ v ∈ t.visits, ∀ next ∈ v.next, v.position < next ∧ next < t.data.size := by
  intro v hv next hnext
  obtain ⟨i, e, he, rfl⟩ := exists_of_mem_visits hv
  obtain ⟨l, hl, rfl⟩ := List.mem_map.mp hnext
  have hforward := RadixTree.link_forward h.flatten he hl
  rw [Nat.zero_add, Nat.zero_add] at hforward
  rw [h.data_size, ← startOf_length]
  exact ⟨startOf_lt_startOf hforward.1 (Nat.le_of_lt hforward.2),
    startOf_lt_startOf hforward.2 (Nat.le_refl _)⟩

theorem ends_visits (h : Compiled name ps t tree) {i : Nat} {v : Visit} {e : Entry}
    (hv : t.visits[i]? = some v) (he : t.entries[i]? = some e) :
    v.position + e.byteLength t.layout.width =
      (t.visits[i + 1]?.map Visit.position).getD t.data.size := by
  rw [getElem?_visits, he, Option.map_some] at hv
  cases hv
  rw [getElem?_visits, Walk.visitOf, ← startOf_succ he]
  by_cases hlast : i + 1 < t.entries.length
  · rw [List.getElem?_eq_getElem hlast]
    rfl
  · have hlen : t.entries.length = i + 1 := by
      have := (List.getElem?_eq_some_iff.mp he).1
      omega
    rw [List.getElem?_eq_none (Nat.le_of_not_lt hlast), h.data_size, ← startOf_length, hlen]
    rfl

theorem tiled (h : Compiled name ps t tree) : t.Tiled t.visits where
  positions := h.positions_visits
  first := by
    rw [List.head?_eq_getElem?, getElem?_visits, List.getElem?_eq_getElem h.entries_length_pos]
    rfl
  ascending := ascending_visits t
  kinds := kinds_visits t
  codes := h.codes_visits
  choices := h.choices_visits
  links := h.links_visits
  ends := h.ends_visits

theorem walk_eq (h : Compiled name ps t tree) {limit : Nat} (hlimit : t.entries.length ≤ limit) :
    t.walk limit = .ok (t.visits, []) := by
  have hvisit : ∀ i e, t.entries[i]? = some e →
      Walk.visit t.layout.width t.data (startOf t.layout.width t.entries i) =
        .ok (Walk.visitOf (startOf t.layout.width t.entries) i e) :=
    fun _ _ he => Walk.visit_startOf h.written h.canonical h.flatten he
  have hwalk := Walk.walk_flatten hvisit h.flatten (List.prefix_refl _)
    (limit - t.entries.length) []
  rw [Nat.add_sub_cancel' hlimit] at hwalk
  rw [Table.walk, show 0 = startOf t.layout.width t.entries 0 from rfl, hwalk, Walk.walk]
  simp only [Walk.prepend, Except.map, List.append_nil]
  rfl

end Compiled

/-- A walk over the bytes of a table comes to an end without leaving them. It meets each entry once,
in the order of the places, and nothing lies between the entries or behind the last one. -/
theorem walk_compile (h : compile name ps = .ok t) : ∃ visits, t.Tiled visits ∧
    ∀ limit, t.entries.length ≤ limit → t.walk limit = .ok (visits, []) := by
  obtain ⟨tree, hc⟩ := compile_eq_ok.mp h
  exact ⟨t.visits, hc.tiled, fun limit hlimit => hc.walk_eq hlimit⟩

theorem walk_compile_hte : ∃ t visits,
    compile "english" [⟨"hte", "the"⟩, ⟨"nad", "and"⟩] = .ok t ∧ t.Tiled visits ∧
    t.walk t.entries.length = .ok (visits, []) := by
  obtain ⟨t, ht⟩ := exists_compile_hte
  obtain ⟨visits, htiled, hwalk⟩ := walk_compile ht
  exact ⟨t, visits, ht, htiled, hwalk _ (Nat.le_refl _)⟩

end Table
end Emend
