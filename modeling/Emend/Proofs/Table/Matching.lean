import Emend.Proofs.Table.Scan

/-! Typed keys lead to the leaf of the typo that they end in, and to no leaf if there is none. -/
namespace Emend

namespace Scan
open RadixTree (Spells Canonical Placed)

variable {w : LinkWidth} {data : ByteArray} {es : List Entry} {pairs : Array Pair} {id k : Nat}
  {e : Entry} {t : RadixTree} {keys codes : List UInt8} {key : UInt8} {r : Except Halt Nat}

/-- The data is that of entries without gaps. -/
structure Written (w : LinkWidth) (data : ByteArray) (es : List Entry) : Prop where
  fits : Layout.Fits w es
  bytes : data.data.toList = es.flatMap (Layout.entryBytes w (startOf w es))

theorem Written.at (h : Written w data es) (he : es[id]? = some e) :
    At data (startOf w es id) (Layout.entryBytes w (startOf w es) e) := by
  obtain ⟨rest, hrest⟩ := Layout.drop_startOf w (startOf w es) he
  exact ⟨rest, by rw [h.bytes, hrest]⟩

theorem Written.startOf_lt (h : Written w data es) (id : Nat) :
    startOf w es id < 256 ^ w.bytes := by
  have hle := Nat.le_trans (startOf_le w es id) h.fits
  cases w <;> simp only [LinkWidth.reach, LinkWidth.bytes] at hle ⊢ <;> omega

theorem Written.startOf_lt_word (h : Written w data es) (id : Nat) :
    startOf w es id < 2 ^ 32 := by
  have hlt := h.startOf_lt id
  cases w <;> simp only [LinkWidth.bytes] at hlt <;> omega

/-- What a reading of the part of the table that holds `tree` may end with. -/
def Leads (pairs : Array Pair) (w : LinkWidth) (es : List Entry) (tree : RadixTree)
    (keys : List UInt8) : Except Halt Nat → Prop
  | .ok place => ∃ u k id edit, Spells tree u k ∧ u <+: keys ∧ editOf pairs k = .ok edit ∧
      es[id]? = some (.leaf k edit) ∧ place = startOf w es id
  | .error .noMatch => ∀ u k, Spells tree u k → ¬ u <+: keys
  | .error .outside => False

theorem Leads.chain (h : Leads pairs w es t keys r) :
    Leads pairs w es (.chain codes t) (codes ++ keys) r := by
  cases r with
  | ok place =>
    obtain ⟨u, k, id, edit, hu, hpre, hedit, hid, hplace⟩ := h
    exact ⟨codes ++ u, k, id, edit, .chain hu, (List.prefix_append_right_inj codes).mpr hpre,
      hedit, hid, hplace⟩
  | error halt =>
    cases halt with
    | outside => exact h
    | noMatch =>
      intro _ k hu hpre
      obtain ⟨v, rfl, hv⟩ := RadixTree.spells_chain.mp hu
      exact h v k hv ((List.prefix_append_right_inj codes).mp hpre)

theorem Leads.branch {children : List (UInt8 × RadixTree)} (hasc : Ascending children)
    (hm : (key, t) ∈ children) (h : Leads pairs w es t keys r) :
    Leads pairs w es (.branch children) (key :: keys) r := by
  cases r with
  | ok place =>
    obtain ⟨u, k, id, edit, hu, hpre, hedit, hid, hplace⟩ := h
    exact ⟨key :: u, k, id, edit, .branch hm hu, List.cons_prefix_cons.mpr ⟨rfl, hpre⟩,
      hedit, hid, hplace⟩
  | error halt =>
    cases halt with
    | outside => exact h
    | noMatch =>
      intro _ k hu hpre
      obtain ⟨c, t', v, hm', rfl, hv⟩ := RadixTree.spells_branch.mp hu
      obtain ⟨rfl, hrest⟩ := List.cons_prefix_cons.mp hpre
      rw [hasc.eq_of_mem hm' hm] at hv
      exact h v k hv hrest

/-- Lists of the same codes, side by side: a look-up in one finds its neighbour in the other. -/
theorem lookup_zip {α β : Type} (key : UInt8) {xs : List (UInt8 × α)} {ys : List (UInt8 × β)}
    (h : xs.map (·.1) = ys.map (·.1)) : match xs.lookup key with
      | some x => ∃ y, ((key, x), (key, y)) ∈ xs.zip ys
      | none => ∀ y, (key, y) ∉ ys := by
  induction xs generalizing ys with
  | nil =>
    cases ys with
    | nil => simp
    | cons y ys => simp at h
  | cons x xs ih =>
    cases ys with
    | nil => simp at h
    | cons y ys =>
      obtain ⟨c, x⟩ := x
      obtain ⟨d, y⟩ := y
      simp only [List.map_cons, List.cons.injEq] at h
      obtain ⟨rfl, h⟩ := h
      have ih := ih h
      rw [lookup_cons_ite]
      by_cases hkey : key = c
      · subst hkey
        simp only [if_true]
        exact ⟨y, by simp⟩
      · simp only [hkey, if_false]
        cases hl : xs.lookup key with
        | some x' =>
          rw [hl] at ih
          obtain ⟨y', hy'⟩ := ih
          exact ⟨y', List.mem_cons_of_mem _ hy'⟩
        | none =>
          rw [hl] at ih
          intro y' hy'
          rcases List.mem_cons.mp hy' with heq | hy'
          · cases heq
            exact hkey rfl
          · exact ih y' hy'

/-- The tree says what the bytes lead to. -/
theorem leads_scanFrom (hw : Written w data es) (hp : Placed pairs es id t) (ht : Canonical t)
    (hkeys : ∀ key ∈ keys, key ≠ 0) :
    Leads pairs w es t keys (scanFrom w data (startOf w es id) keys) := by
  induction t generalizing id keys with
  | leaf k =>
    cases hp with
    | @leaf _ _ edit hedit hid =>
      rw [scanFrom_leaf (hw.at hid)]
      exact ⟨[], k, id, edit, .leaf k, List.nil_prefix, hedit, hid, rfl⟩
  | chain codes t ih =>
    cases hp with
    | chain hid hnext =>
      obtain ⟨hne, hcode, ht, -⟩ := ht.of_chain
      have hstart : startOf w es (id + 1) = startOf w es id + codes.length + 1 :=
        startOf_succ hid
      rcases scanFrom_chain w keys (hw.at hid) hne hcode with
        ⟨rest, rfl, hscan⟩ | ⟨hno, hscan⟩
      · rw [hscan, ← hstart]
        exact (ih hnext ht fun key hkey => hkeys key (List.mem_append_right _ hkey)).chain
      · rw [hscan]
        intro _ k hu hpre
        obtain ⟨v, rfl, -⟩ := RadixTree.spells_chain.mp hu
        exact hno ((List.prefix_append codes v).trans hpre)
  | branch children ih =>
    cases hp with
    | @branch _ _ links hid hcodes hchildren =>
      obtain ⟨hlen, hasc, hcode, hc⟩ := ht.of_branch
      have hat := hw.at hid
      have hlinks : ∀ l ∈ links, Alphabet.IsCode l.1 := by
        intro l hl
        have hm : l.1 ∈ children.map (·.1) := hcodes ▸ List.mem_map_of_mem hl
        obtain ⟨e, he, heq⟩ := List.mem_map.mp hm
        rw [← heq]
        exact hcode e he
      have hne : links ≠ [] := by
        rintro rfl
        have := congrArg List.length hcodes
        simp only [List.map_nil, List.length_nil, List.length_map] at this
        omega
      obtain ⟨l, links, rfl⟩ := List.exists_cons_of_ne_nil hne
      cases keys with
      | nil =>
        rw [scanFrom_nil hat (branchCode_flags (hlinks l List.mem_cons_self)).1]
        intro _ k hu hpre
        obtain ⟨c, t, v, -, rfl, -⟩ := RadixTree.spells_branch.mp hu
        simp at hpre
      | cons key keys =>
        obtain ⟨hkey, hkeys⟩ := List.forall_mem_cons.mp hkeys
        rw [scanFrom_branch hat hlinks (fun x _ => hw.startOf_lt x.2) hkey]
        have hlook := lookup_zip key hcodes
        generalize (l :: links).lookup key = r at hlook ⊢
        cases r with
        | none =>
          intro _ k hu hpre
          obtain ⟨c, t, v, hm, rfl, -⟩ := RadixTree.spells_branch.mp hu
          obtain ⟨rfl, -⟩ := List.cons_prefix_cons.mp hpre
          exact hlook t hm
        | some child =>
          obtain ⟨t, hzip⟩ := hlook
          have hm := (List.of_mem_zip hzip).2
          exact (ih _ hm (hchildren _ hzip) (hc _ hm) hkeys).branch hasc hm

end Scan

/-- The typed keys end in the codes of the typo. -/
def Pair.CompletedBy (p : Pair) (keys : List UInt8) : Prop :=
  ∃ ks, keys? p.typo = some ks ∧ ks <:+ keys

namespace Table
variable {name : String} {ps : List Pair} {t : Table} {tree : RadixTree} {keys : List UInt8}
  {k place : Nat} {p q : Pair}

/-- The one leaf of pair `k` begins at byte `place`, and what is there is the edit of the pair. -/
def LeafAt (t : Table) (k place : Nat) : Prop :=
  ∃ id p edit, t.pairs[k]? = some p ∧ Edit.ofPair p = .ok edit ∧
    t.entries[id]? = some (.leaf k edit) ∧
    (∀ j e, t.entries[j]? = some (.leaf k e) → j = id) ∧
    (t.start? id).map UInt32.toNat = some place ∧
    t.data.extract place (place + edit.byteLength) = edit.leafBytes

theorem Compiled.written (h : Compiled name ps t tree) :
    Scan.Written t.layout.width t.data t.entries :=
  ⟨h.layout_eq.2, h.bytes⟩

theorem Compiled.leafAt (h : Compiled name ps t tree) {id : Nat} {edit : Edit}
    (hp : ps[k]? = some p) (hedit : Edit.ofPair p = .ok edit)
    (hid : t.entries[id]? = some (.leaf k edit)) :
    t.LeafAt k (startOf t.layout.width t.entries id) := by
  have hlt := h.written.startOf_lt_word id
  have hnodup := nodup_leaves_of_spelledBy h.canonical h.spelled
  refine ⟨id, p, edit, ?_, hedit, hid, ?_, ?_, ?_⟩
  · rw [h.pairs, List.getElem?_toArray, hp]
  · intro j f hj
    exact RadixTree.leaf_unique h.flatten hnodup hj hid
  · rw [start?, h.layout_eq.1, Layout.offset_exact (List.getElem?_eq_some_iff.mp hid).1,
      Option.map_some]
    exact congrArg some (UInt32.toNat_ofNat_of_lt' hlt)
  · obtain ⟨rest, hrest⟩ := h.written.at hid
    apply ByteArray.ext
    apply Array.toList_inj.mp
    rw [toList_extract, ← hrest, ← edit.length_leafBytes]
    exact List.take_left

/-- What a reading of a compiled table ends with. -/
theorem Compiled.scan (h : Compiled name ps t tree) (hkeys : ∀ key ∈ keys, key ≠ 0) :
    match t.scan keys with
    | .ok place => ∃ k p, ps[k]? = some p ∧ p.CompletedBy keys ∧ t.LeafAt k place
    | .error .noMatch => ∀ p ∈ ps, ¬ p.CompletedBy keys
    | .error .outside => False := by
  have hroot : RadixTree.Placed ps.toArray t.entries 0 tree :=
    RadixTree.placed_flatten h.flatten (List.prefix_refl t.entries)
  have hrev : ∀ key ∈ keys.reverse, key ≠ 0 := fun key hkey =>
    hkeys key (List.mem_reverse.mp hkey)
  have hleads := Scan.leads_scanFrom h.written hroot h.canonical hrev
  rw [show startOf t.layout.width t.entries 0 = 0 from rfl, ← Table.scan] at hleads
  generalize t.scan keys = r at hleads ⊢
  cases r with
  | ok place =>
    obtain ⟨u, k, id, edit, hu, hpre, hedit, hid, rfl⟩ := hleads
    obtain ⟨p, hp, hcodes⟩ := (h.spelled u k).mp hu
    rw [editOf_eq hp] at hedit
    refine ⟨k, p, hp, ⟨u.reverse, Trie.codesOf_eq_ok.mp hcodes, ?_⟩, h.leafAt hp hedit hid⟩
    rw [← List.reverse_prefix, List.reverse_reverse]
    exact hpre
  | error halt =>
    cases halt with
    | outside => exact hleads
    | noMatch =>
      rintro p hp ⟨ks, hks, hsuf⟩
      obtain ⟨k, hk⟩ := List.getElem?_of_mem hp
      refine hleads ks.reverse k ((h.spelled _ k).mpr ⟨p, hk, ?_⟩) (List.reverse_prefix.mpr hsuf)
      rw [Trie.codesOf_eq_ok, List.reverse_reverse, hks]

theorem Compiled.leaf_of_scan (h : Compiled name ps t tree) (hkeys : ∀ key ∈ keys, key ≠ 0)
    (hplace : t.scan keys = .ok place) :
    ∃ k p, ps[k]? = some p ∧ p.CompletedBy keys ∧ t.LeafAt k place := by
  have hscan := h.scan hkeys
  rwa [hplace] at hscan

theorem Compiled.not_completedBy_of_scan (h : Compiled name ps t tree)
    (hkeys : ∀ key ∈ keys, key ≠ 0) (hno : t.scan keys = .error .noMatch) :
    ∀ p ∈ ps, ¬ p.CompletedBy keys := by
  have hscan := h.scan hkeys
  rwa [hno] at hscan

theorem Compiled.scan_ne_outside (h : Compiled name ps t tree)
    (hkeys : ∀ key ∈ keys, key ≠ 0) : t.scan keys ≠ .error .outside := by
  intro hout
  have hscan := h.scan hkeys
  rwa [hout] at hscan

theorem Compiled.exists_scan_iff (h : Compiled name ps t tree) (hkeys : ∀ key ∈ keys, key ≠ 0) :
    (∃ place, t.scan keys = .ok place) ↔ ∃ p ∈ ps, p.CompletedBy keys := by
  constructor
  · rintro ⟨place, hplace⟩
    obtain ⟨k, p, hp, hdone, -⟩ := h.leaf_of_scan hkeys hplace
    exact ⟨p, List.mem_of_getElem? hp, hdone⟩
  · rintro ⟨p, hp, hdone⟩
    cases hr : t.scan keys with
    | ok place => exact ⟨place, rfl⟩
    | error halt =>
      cases halt with
      | outside => exact (h.scan_ne_outside hkeys hr).elim
      | noMatch => exact (h.not_completedBy_of_scan hkeys hr p hp hdone).elim

end Table
end Emend
