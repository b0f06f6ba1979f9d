import Emend.Proofs.Entry.Blocks
import Emend.Proofs.Table.Matching

/-! A walk over the bytes of a table, from the first one on. It takes no keys: of a branch it goes
through all children, one after the other. -/
namespace Emend

inductive EntryKind
  | leaf
  | chain
  | branch
  deriving DecidableEq, Repr

def Entry.kind : Entry → EntryKind
  | leaf _ _ => .leaf
  | chain _ _ => .chain
  | branch _ => .branch

/-- The codes that an entry asks for or chooses by. -/
def Entry.codes : Entry → List UInt8
  | leaf _ _ => []
  | chain codes _ => codes
  | branch links => links.map (·.1)

/-- What is read at the place of one entry, and the places where the walk goes on. -/
structure Visit where
  position : Nat
  kind : EntryKind
  codes : List UInt8
  next : List Nat
  deriving DecidableEq, Repr

namespace Walk
open Scan (byteAt readLink)

/-- The two flags of the first byte tell the kind. -/
def kindOf (b : UInt8) : EntryKind :=
  if b &&& Alphabet.leafBit ≠ 0 then .leaf
  else if b &&& Alphabet.branchBit ≠ 0 then .branch
  else .chain

/-- The codes up to the next zero, and the place behind it. -/
def readCodes (data : ByteArray) (position : Nat) : Except Halt (List UInt8 × Nat) :=
  if h : position < data.size then
    if data[position] = 0 then .ok ([], position + 1)
    else do
      let (codes, stop) ← readCodes data (position + 1)
      return (data[position] :: codes, stop)
  else .error .outside
termination_by data.size - position

/-- The codes with their links, up to a zero in place of a code. The first code is freed of
`flag`. -/
def readLinks (w : LinkWidth) (data : ByteArray) (flag : UInt8) (position : Nat) :
    Except Halt (List (UInt8 × Nat)) :=
  if h : position < data.size then
    let code := data[position] ^^^ flag
    if code = 0 then .ok []
    else do
      let link ← readLink data (position + 1) w.bytes
      let rest ← readLinks w data 0 (position + 1 + w.bytes)
      return (code, link) :: rest
  else .error .outside
termination_by data.size - position

def visit (w : LinkWidth) (data : ByteArray) (position : Nat) : Except Halt Visit := do
  let b ← byteAt data position
  match kindOf b with
  | .leaf => return ⟨position, .leaf, [], []⟩
  | .chain =>
    let (codes, stop) ← readCodes data position
    return ⟨position, .chain, codes, [stop]⟩
  | .branch =>
    let links ← readLinks w data Alphabet.branchBit position
    return ⟨position, .branch, links.map (·.1), links.map (·.2)⟩

/-- Makes at most `limit` visits, those that a place leads to before those that wait behind it.
The places that are left over come back with the visits. -/
def walk (w : LinkWidth) (data : ByteArray) : Nat → List Nat → Except Halt (List Visit × List Nat)
  | _, [] => .ok ([], [])
  | 0, position :: todo => .ok ([], position :: todo)
  | limit + 1, position :: todo => do
    let v ← visit w data position
    let (visits, left) ← walk w data limit (v.next ++ todo)
    return (v :: visits, left)

end Walk

/-- At most `limit` visits of a table, beginning with its first byte. -/
def Table.walk (t : Table) (limit : Nat) : Except Halt (List Visit × List Nat) :=
  Walk.walk t.layout.width t.data limit [0]

namespace Walk
open Alphabet (IsCode)
open Scan (At Written byteAt readLink code_flags branchCode_flags leafBit_or_and of_isCode
  ne_zero_of_isCode readLink_littleEndian)

variable {w : LinkWidth} {data : ByteArray} {position id limit : Nat} {b flag : UInt8}
  {codes bs : List UInt8} {links : List (UInt8 × Nat)} {start : Nat → Nat} {e : Entry}
  {es table : List Entry} {todo : List Nat} {v : Visit}

/-! Reading what was written. -/

theorem kindOf_leaf (b : UInt8) : kindOf (Alphabet.leafBit ||| b) = .leaf := by
  rw [kindOf, if_pos (leafBit_or_and b)]

theorem kindOf_code {c : UInt8} (h : IsCode c) : kindOf c = .chain := by
  obtain ⟨hleaf, hbranch⟩ := code_flags h
  simp only [kindOf, hleaf, hbranch, ne_eq, not_true_eq_false, if_false]

theorem kindOf_branchCode {c : UInt8} (h : IsCode c) :
    kindOf (c ||| Alphabet.branchBit) = .branch := by
  obtain ⟨hleaf, hbranch⟩ := branchCode_flags h
  simp only [kindOf, hleaf, hbranch, ne_eq, not_true_eq_false, not_false_eq_true, if_false,
    if_true]

theorem or_xor {c : UInt8} (h : IsCode c) (hflag : flag = 0 ∨ flag = Alphabet.branchBit) :
    (c ||| flag) ^^^ flag = c := by
  rcases hflag with rfl | rfl
  · exact of_isCode (P := fun c => (c ||| 0) ^^^ 0 = c) h (by decide)
  · exact of_isCode (P := fun c => (c ||| Alphabet.branchBit) ^^^ Alphabet.branchBit = c) h
      (by decide)

theorem readCodes_of_getElem? (h : data[position]? = some b) : readCodes data position =
    if b = 0 then .ok ([], position + 1)
    else do
      let (codes, stop) ← readCodes data (position + 1)
      return (b :: codes, stop) := by
  obtain ⟨hlt, rfl⟩ := getElem?_eq_some_iff.mp h
  rw [readCodes, dif_pos hlt]

theorem readCodes_chain (h : At data position (codes ++ [0])) (hcode : ∀ c ∈ codes, IsCode c) :
    readCodes data position = .ok (codes, position + codes.length + 1) := by
  induction codes generalizing position with
  | nil =>
    rw [readCodes_of_getElem? h.getElem?, if_pos rfl]
    rfl
  | cons c codes ih =>
    obtain ⟨hc, hcode⟩ := List.forall_mem_cons.mp hcode
    rw [readCodes_of_getElem? h.getElem?, if_neg (ne_zero_of_isCode hc), ih h.tail hcode,
      List.length_cons, Nat.add_assoc position 1, Nat.add_comm 1]
    rfl

theorem readLinks_of_getElem? (h : data[position]? = some b) : readLinks w data flag position =
    if b ^^^ flag = 0 then .ok []
    else do
      let link ← readLink data (position + 1) w.bytes
      let rest ← readLinks w data 0 (position + 1 + w.bytes)
      return (b ^^^ flag, link) :: rest := by
  obtain ⟨hlt, rfl⟩ := getElem?_eq_some_iff.mp h
  rw [readLinks, dif_pos hlt]

theorem readLinks_branchBytes (h : At data position (Layout.branchBytes w start flag links))
    (hne : links = [] → flag = 0) (hflag : flag = 0 ∨ flag = Alphabet.branchBit)
    (hcode : ∀ l ∈ links, IsCode l.1) (hreach : ∀ l ∈ links, start l.2 < 256 ^ w.bytes) :
    readLinks w data flag position = .ok (links.map fun l => (l.1, start l.2)) := by
  induction links generalizing position flag with
  | nil =>
    rw [readLinks_of_getElem? h.getElem?, hne rfl]
    rfl
  | cons l links ih =>
    obtain ⟨code, child⟩ := l
    obtain ⟨hc, hcode⟩ := List.forall_mem_cons.mp hcode
    obtain ⟨hchild, hreach⟩ := List.forall_mem_cons.mp hreach
    rw [Layout.branchBytes] at h
    obtain ⟨hlink, hrest⟩ := h.tail.append
    rw [LinkWidth.length_littleEndian] at hrest
    rw [readLinks_of_getElem? h.getElem?, or_xor hc hflag, if_neg (ne_zero_of_isCode hc),
      readLink_littleEndian hlink hchild, ih hrest (fun _ => rfl) (Or.inl rfl) hcode hreach]
    rfl

theorem visit_leaf {edit : Edit} (h : At data position edit.leafBytes.data.toList) :
    visit w data position = .ok ⟨position, .leaf, [], []⟩ := by
  rw [Edit.toList_leafBytes] at h
  rw [visit, h.byteAt]
  simp only [bind, Except.bind, kindOf_leaf]
  rfl

theorem visit_chain (h : At data position (codes ++ [0])) (hne : codes ≠ [])
    (hcode : ∀ c ∈ codes, IsCode c) :
    visit w data position = .ok ⟨position, .chain, codes, [position + codes.length + 1]⟩ := by
  have hread := readCodes_chain h hcode
  obtain ⟨c, codes, rfl⟩ := List.exists_cons_of_ne_nil hne
  rw [visit, At.byteAt h]
  simp only [bind, Except.bind, kindOf_code (hcode c List.mem_cons_self), hread]
  rfl

theorem visit_branch (h : At data position (Layout.branchBytes w start Alphabet.branchBit links))
    (hne : links ≠ []) (hcode : ∀ l ∈ links, IsCode l.1)
    (hreach : ∀ l ∈ links, start l.2 < 256 ^ w.bytes) : visit w data position =
      .ok ⟨position, .branch, links.map (·.1), links.map fun l => start l.2⟩ := by
  have hread := readLinks_branchBytes h (fun he => (hne he).elim) (Or.inr rfl) hcode hreach
  obtain ⟨l, links, rfl⟩ := List.exists_cons_of_ne_nil hne
  rw [Layout.branchBytes] at h
  rw [visit, h.byteAt]
  simp only [bind, Except.bind, kindOf_branchCode (hcode l List.mem_cons_self), hread]
  simp only [pure, Except.pure, List.map_map, Function.comp_def]

/-- What the visit of an entry sees if entry `i` begins at `start i`. -/
def visitOf (start : Nat → Nat) (id : Nat) (e : Entry) : Visit :=
  ⟨start id, e.kind, e.codes, e.links.map start⟩

variable {pairs : Array Pair} {t : RadixTree}

theorem visit_startOf (hw : Written w data es) (ht : t.Canonical)
    (h : t.flatten pairs 0 = .ok es) (he : es[id]? = some e) :
    visit w data (startOf w es id) = .ok (visitOf (startOf w es) id e) := by
  have hat := hw.at he
  cases e with
  | leaf k edit => exact visit_leaf hat
  | chain codes next =>
    obtain ⟨hne, hcode, hnext⟩ := RadixTree.chain_of_canonical ht h he
    rw [Nat.zero_add] at hnext
    subst hnext
    rw [visit_chain hat hne hcode, visitOf, Entry.links, List.map_singleton, startOf_succ he]
    rfl
  | branch links =>
    obtain ⟨hlen, hcode, -⟩ := RadixTree.branch_of_canonical ht h he
    have hne : links ≠ [] := List.length_pos_iff.mp (by omega)
    rw [visit_branch hat hne hcode fun l _ => hw.startOf_lt l.2, visitOf, Entry.links,
      List.map_map]
    rfl

/-! The whole walk. -/

/-- The visits of entries, the first of which is numbered `id`. -/
def visitsOf (start : Nat → Nat) (id : Nat) (es : List Entry) : List Visit :=
  es.mapIdx fun i e => visitOf start (id + i) e

theorem visitsOf_cons : visitsOf start id (e :: es) =
    visitOf start id e :: visitsOf start (id + 1) es := by
  rw [visitsOf, List.mapIdx_cons, visitsOf]
  simp only [Nat.add_zero, Nat.add_assoc, Nat.add_comm 1]

theorem visitsOf_append {fs : List Entry} : visitsOf start id (es ++ fs) =
    visitsOf start id es ++ visitsOf start (id + es.length) fs := by
  rw [visitsOf, List.mapIdx_append, visitsOf, visitsOf]
  simp only [Nat.add_assoc, Nat.add_comm es.length]

/-- The result of a walk that makes `visits` before. -/
def prepend (visits : List Visit) (r : Except Halt (List Visit × List Nat)) :
    Except Halt (List Visit × List Nat) :=
  r.map fun (later, left) => (visits ++ later, left)

theorem prepend_nil {r : Except Halt (List Visit × List Nat)} : prepend [] r = r := by
  cases r <;> rfl

theorem prepend_prepend {us vs : List Visit} {r : Except Halt (List Visit × List Nat)} :
    prepend us (prepend vs r) = prepend (us ++ vs) r := by
  cases r with
  | error halt => rfl
  | ok r => simp only [prepend, Except.map, List.append_assoc]

theorem walk_succ (h : visit w data position = .ok v) : walk w data (limit + 1) (position :: todo) =
    prepend [v] (walk w data limit (v.next ++ todo)) := by
  rw [walk, h]
  simp only [bind, Except.bind]
  cases walk w data limit (v.next ++ todo) <;> rfl

/-- The entries of a tree are visited in their order, and then what waits behind. -/
theorem walk_flatten
    (hvisit : ∀ i e, table[i]? = some e → visit w data (start i) = .ok (visitOf start i e))
    (h : t.flatten pairs id = .ok es) (hpre : es <+: table.drop id) (limit : Nat)
    (todo : List Nat) : walk w data (es.length + limit) (start id :: todo) =
      prepend (visitsOf start id es) (walk w data limit todo) := by
  refine RadixTree.flatten_induct
    (P := fun id _ es => es <+: table.drop id → ∀ limit todo,
      walk w data (es.length + limit) (start id :: todo) =
        prepend (visitsOf start id es) (walk w data limit todo))
    (Q := fun id _ links es => es <+: table.drop id → ∀ limit todo,
      walk w data (es.length + limit) (links.map (fun l => start l.2) ++ todo) =
        prepend (visitsOf start id es) (walk w data limit todo)) ?_ ?_ ?_ ?_ ?_ h hpre limit todo
  · intro id k edit _ hpre limit todo
    obtain ⟨hid, -⟩ := RadixTree.getElem?_of_prefix_drop hpre
    rw [List.length_singleton, Nat.add_comm, walk_succ (hvisit id _ hid)]
    rfl
  · intro id codes t es ih hpre limit todo
    obtain ⟨hid, hbelow⟩ := RadixTree.getElem?_of_prefix_drop hpre
    rw [List.length_cons, Nat.add_right_comm, walk_succ (hvisit id _ hid), visitsOf_cons]
    rw [show (visitOf start id (.chain codes (id + 1))).next ++ todo = start (id + 1) :: todo from
      rfl, ih hbelow, prepend_prepend]
    rfl
  · intro id children links es ih hpre limit todo
    obtain ⟨hid, hbelow⟩ := RadixTree.getElem?_of_prefix_drop hpre
    rw [List.length_cons, Nat.add_right_comm, walk_succ (hvisit id _ hid), visitsOf_cons]
    rw [show (visitOf start id (.branch links)).next = links.map fun l => start l.2 from
      List.map_map, ih hbelow, prepend_prepend]
    rfl
  · intro id _ limit todo
    rw [List.length_nil, Nat.zero_add, show visitsOf start id [] = [] from rfl, prepend_nil]
    rfl
  · intro id c t es children links below iht ih hpre limit todo
    obtain ⟨hfirst, hbelow⟩ := RadixTree.prefix_drop_of_append hpre
    rw [List.length_append, Nat.add_assoc, List.map_cons, List.cons_append, iht hfirst, ih hbelow,
      prepend_prepend, visitsOf_append]

end Walk
end Emend
