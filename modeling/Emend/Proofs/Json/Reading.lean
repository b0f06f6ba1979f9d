import Emend.Proofs.Json.Scanning

/-! A value that is printed is read back. -/
namespace Emend.Json

theorem toList_pushAll {out : ByteArray} {bs : List UInt8} :
    (pushAll out bs).data.toList = out.data.toList ++ bs := toList_foldl_push

namespace Machine
variable {out : ByteArray} {p q : Parser} {b : UInt8} {bs : List UInt8} {token : Option Token}

/-- A machine that has been fed the text stands between tokens. -/
def Stands (out : ByteArray) (p : Parser) : Prop :=
  initial.run out.data.toList = some ⟨.between, p⟩

/-- A machine that has been fed the text stands between tokens once the number ends that it may
still be in. -/
def Ends (out : ByteArray) (p : Parser) : Prop :=
  (initial.run out.data.toList).bind finishNumber = some ⟨.between, p⟩

theorem Stands.ends (h : Stands out p) : Ends out p := by
  rw [Ends, h]
  rfl

/-- It makes no difference whether a number was to end, as long as it ends now. -/
theorem Ends.run_append (h : Ends out p) (hb : isNumberByte b = false) :
    initial.run (out.data.toList ++ b :: bs) = run ⟨.between, p⟩ (b :: bs) := by
  obtain ⟨m, hm, hend⟩ := Option.bind_eq_some_iff.mp h
  have hstep : m.step b = step ⟨.between, p⟩ b := by
    simp [step, hb, hend]
    rfl
  rw [Machine.run_append, hm, Option.bind_some, run, run, hstep]

/-- Text that begins as no number does is read from between tokens. -/
theorem Ends.append (h : Ends out p) (hb : isNumberByte b = false) {out' : ByteArray}
    (hout : out'.data.toList = out.data.toList ++ b :: bs)
    (hrun : run ⟨.between, p⟩ (b :: bs) = some ⟨.between, q⟩) : Stands out' q := by
  rw [Stands, hout, h.run_append hb, hrun]

theorem Ends.push (h : Ends out p) (hb : isNumberByte b = false)
    (hstart : Scanner.step .between b = some (.between, token)) (hfeed : p.feedAll token = some q) :
    Stands (out.push b) q := by
  have hout : (out.push b).data.toList = out.data.toList ++ [b] := by
    rw [ByteArray.data_push, Array.toList_push]
  exact h.append hb hout (run_cons hstart hfeed (by nofun))

theorem Stands.pushBlanks (h : Stands out p) (n : Nat) :
    Stands (pushAll out (List.replicate n 0x20)) p := by
  induction n generalizing out with
  | zero => exact h
  | succ n ih => exact ih (h.ends.push rfl rfl rfl)

theorem Ends.newLine (h : Ends out p) (depth : Nat) : Stands (newLine depth out) p :=
  (h.push rfl rfl rfl).pushBlanks _

theorem toList_printString {bytes : ByteArray} : (printString out bytes).data.toList =
    out.data.toList ++ 0x22 :: (bytes.data.toList.flatMap escapeByte ++ [0x22]) := by
  have hescaped : ∀ (bs : List UInt8) (out : ByteArray),
      (bs.foldl (fun out b => pushAll out (escapeByte b)) out).data.toList =
        out.data.toList ++ bs.flatMap escapeByte := by
    intro bs
    induction bs with
    | nil => simp
    | cons b bs ih => simp [ih, toList_pushAll]
  rw [printString, ← Array.foldl_toList, ByteArray.data_push, Array.toList_push, hescaped]
  simp

theorem Ends.printString {bytes : ByteArray} (h : Ends out p)
    (hfeed : p.feed (.scalar (.string bytes)) = some q) : Stands (printString out bytes) q :=
  h.append rfl toList_printString (run_string hfeed)

theorem Ends.printWord {word : String} {value : Json} {first second : UInt8} {rest : List UInt8}
    (h : Ends out p) (hword : word.toUTF8.data.toList = first :: second :: rest)
    (hb : isNumberByte first = false)
    (hstart : Scanner.step .between first = some (.word (second :: rest) value, none))
    (hfeed : p.feed (.scalar value) = some q) : Stands (printAscii out word) q := by
  have hrun : run ⟨.between, p⟩ (first :: second :: rest) = some ⟨.between, q⟩ := by
    rw [run_cons hstart rfl (by nofun)]
    exact run_word hfeed
  refine h.append hb ?_ hrun
  rw [printAscii, ByteArray.toList_data_append, hword]

/-- Two bytes that are tokens or white space. -/
theorem Ends.printMarks {marks : String} {first second : UInt8} {t u : Option Token} {r : Parser}
    (h : Ends out p) (hmarks : marks.toUTF8.data.toList = [first, second])
    (hb : isNumberByte first = false)
    (hfirst : Scanner.step .between first = some (.between, t)) (hfeed : p.feedAll t = some q)
    (hsecond : Scanner.step .between second = some (.between, u))
    (hfeed' : q.feedAll u = some r) :
    Stands (printAscii out marks) r := by
  have hrun : run ⟨.between, p⟩ [first, second] = some ⟨.between, r⟩ := by
    rw [run_cons hfirst hfeed (by nofun)]
    exact run_cons hsecond hfeed' (by nofun)
  refine h.append hb ?_ hrun
  rw [printAscii, ByteArray.toList_data_append, hmarks]

theorem Stands.pushNumber {literal : List UInt8} (h : Stands out p)
    (hnumber : isNumber literal = true) (hfeed : p.feed (.scalar (.number literal)) = some q) :
    Ends (pushAll out literal) q := by
  cases literal with
  | nil => cases hnumber
  | cons b bs =>
    obtain ⟨hb, hbs⟩ := List.forall_mem_cons.mp (all_of_isNumber hnumber)
    have hfirst : Scanner.step .between b = some (.number [b], none) :=
      Scanner.start_of_isNumberByte hb
    have hrun : run ⟨.between, p⟩ (b :: bs) = some ⟨.number (b :: bs).reverse, p⟩ := by
      rw [run_cons hfirst rfl (by nofun), List.reverse_cons]
      exact run_number hbs
    rw [Ends, toList_pushAll, Machine.run_append, h, Option.bind_some, hrun]
    simp [finishNumber, Scanner.finishNumber, hnumber, hfeed]

/-- The stack on which a value is expected. -/
structure Awaits (p : Parser) (stack : List Frame) : Prop where
  scalar : ∀ v, p.feed (.scalar v) = some ⟨.after v, stack⟩
  openArray : p.feed .openArray = some ⟨.itemOrClose, stack⟩
  openObject : p.feed .openObject = some ⟨.nameOrClose, stack⟩

end Machine

open Machine

/-- Wherever a value is expected, the value is read that is printed there. -/
def Readable (j : Json) : Prop := ∀ (depth : Nat) {out p stack}, Awaits p stack → Stands out p →
  Ends (printAt depth out j) ⟨.after j, stack⟩

variable {depth : Nat} {out : ByteArray} {stack : List Frame} {done : List Json} {j : Json}
  {items : List Json} {fields past : List (ByteArray × Json)} {name : ByteArray}

theorem awaits_value : Awaits ⟨.value, stack⟩ stack := ⟨fun _ => rfl, rfl, rfl⟩

theorem awaits_item : Awaits ⟨.itemOrClose, stack⟩ (.array [] :: stack) := ⟨fun _ => rfl, rfl, rfl⟩

theorem readable_null : Readable .null := by
  intro depth out p stack hp h
  show Ends (printAscii out "null") _
  exact (h.ends.printWord rfl rfl rfl (hp.scalar _)).ends

theorem readable_bool (value : Bool) : Readable (.bool value) := by
  intro depth out p stack hp h
  cases value with
  | true =>
    show Ends (printAscii out "true") _
    exact (h.ends.printWord rfl rfl rfl (hp.scalar _)).ends
  | false =>
    show Ends (printAscii out "false") _
    exact (h.ends.printWord rfl rfl rfl (hp.scalar _)).ends

theorem readable_number {literal : List UInt8} (hnumber : isNumber literal = true) :
    Readable (.number literal) := by
  intro depth out p stack hp h
  show Ends (pushAll out literal) _
  exact h.pushNumber hnumber (hp.scalar _)

theorem readable_string (bytes : ByteArray) : Readable (.string bytes) := by
  intro depth out p stack hp h
  show Ends (printString out bytes) _
  exact (h.ends.printString (hp.scalar _)).ends

/-- Behind an item come the others and the end of the array. -/
theorem stands_items (hitems : ∀ i ∈ items, Readable i)
    (h : Ends out ⟨.after j, .array done :: stack⟩) :
    Stands ((newLine depth (printItems (depth + 1) out items)).push 0x5D)
      ⟨.after (.array (done.reverse ++ j :: items)), stack⟩ := by
  induction items generalizing out j done with
  | nil =>
    show Stands ((newLine depth out).push 0x5D) _
    refine (h.newLine depth).ends.push rfl rfl ?_
    simp [Parser.feedAll, Parser.feed, Parser.continue?]
  | cons i items ih =>
    obtain ⟨hi, hitems⟩ := List.forall_mem_cons.mp hitems
    have hcomma : Stands (out.push 0x2C) ⟨.value, .array (j :: done) :: stack⟩ := h.push rfl rfl rfl
    have hnext := ih hitems (hi (depth + 1) awaits_value (hcomma.ends.newLine (depth + 1)))
    rwa [List.reverse_cons, List.append_assoc, List.singleton_append] at hnext

theorem readable_array (hitems : ∀ i ∈ items, Readable i) : Readable (.array items) := by
  intro depth out p stack hp h
  cases items with
  | nil =>
    have hopen : p.feedAll (some .openArray) = some ⟨.itemOrClose, stack⟩ := hp.openArray
    show Ends (printAscii out "[]") _
    exact (h.ends.printMarks rfl rfl rfl hopen rfl rfl).ends
  | cons i items =>
    obtain ⟨hi, hitems⟩ := List.forall_mem_cons.mp hitems
    have hopen : Stands (out.push 0x5B) ⟨.itemOrClose, stack⟩ := h.ends.push rfl rfl hp.openArray
    have hfirst := hi (depth + 1) awaits_item (hopen.ends.newLine (depth + 1))
    exact (stands_items hitems hfirst).ends

/-- A name, a colon and a value. -/
theorem ends_field {p : Parser} (depth : Nat) (hj : Readable j) (h : Stands out p)
    (hname : p.feed (.scalar (.string name)) = some ⟨.colon past name, stack⟩) :
    Ends (printAt depth (printAscii (printString out name) ": ") j)
      ⟨.after j, .object past name :: stack⟩ := by
  have hcolon : Stands (printAscii (printString out name) ": ")
      ⟨.value, .object past name :: stack⟩ :=
    (h.ends.printString hname).ends.printMarks rfl rfl rfl rfl rfl rfl
  exact hj depth awaits_value hcolon

/-- Behind a field come the others and the end of the object. -/
theorem stands_fields (hfields : ∀ f ∈ fields, Readable f.2)
    (h : Ends out ⟨.after j, .object past name :: stack⟩) :
    Stands ((newLine depth (printFields (depth + 1) out fields)).push 0x7D)
      ⟨.after (.object (past.reverse ++ (name, j) :: fields)), stack⟩ := by
  induction fields generalizing out j past name with
  | nil =>
    show Stands ((newLine depth out).push 0x7D) _
    refine (h.newLine depth).ends.push rfl rfl ?_
    simp [Parser.feedAll, Parser.feed, Parser.continue?]
  | cons f fields ih =>
    obtain ⟨hf, hfields⟩ := List.forall_mem_cons.mp hfields
    have hcomma : Stands (out.push 0x2C) ⟨.name ((name, j) :: past), stack⟩ := h.push rfl rfl rfl
    have hname : Parser.feed ⟨.name ((name, j) :: past), stack⟩ (.scalar (.string f.1)) =
        some ⟨.colon ((name, j) :: past) f.1, stack⟩ := rfl
    have hnext := ih hfields
      (ends_field (depth + 1) hf (hcomma.ends.newLine (depth + 1)) hname)
    rwa [List.reverse_cons, List.append_assoc, List.singleton_append] at hnext

theorem readable_object (hfields : ∀ f ∈ fields, Readable f.2) : Readable (.object fields) := by
  intro depth out p stack hp h
  cases fields with
  | nil =>
    have hopen : p.feedAll (some .openObject) = some ⟨.nameOrClose, stack⟩ := hp.openObject
    show Ends (printAscii out "\x7b\x7d") _
    exact (h.ends.printMarks rfl rfl rfl hopen rfl rfl).ends
  | cons f fields =>
    obtain ⟨hf, hfields⟩ := List.forall_mem_cons.mp hfields
    have hopen : Stands (out.push 0x7B) ⟨.nameOrClose, stack⟩ := h.ends.push rfl rfl hp.openObject
    have hname : Parser.feed ⟨.nameOrClose, stack⟩ (.scalar (.string f.1)) =
        some ⟨.colon [] f.1, stack⟩ := rfl
    have hfirst := ends_field (depth + 1) hf (hopen.ends.newLine (depth + 1)) hname
    exact (stands_fields hfields hfirst).ends

/-- Each number is one by its literal. -/
inductive Lexical : Json → Prop
  | null : Lexical .null
  | bool (value : Bool) : Lexical (.bool value)
  | number {literal : List UInt8} : isNumber literal = true → Lexical (.number literal)
  | string (bytes : ByteArray) : Lexical (.string bytes)
  | array {items : List Json} : (∀ i ∈ items, Lexical i) → Lexical (.array items)
  | object {fields : List (ByteArray × Json)} : (∀ f ∈ fields, Lexical f.2) →
    Lexical (.object fields)

theorem Lexical.readable (h : Lexical j) : Readable j := by
  induction h with
  | null => exact readable_null
  | bool value => exact readable_bool value
  | number hnumber => exact readable_number hnumber
  | string bytes => exact readable_string bytes
  | array _ ih => exact readable_array ih
  | object _ ih => exact readable_object ih

/-- A value is read back, and so it is with a line break behind it. -/
theorem parse_print (h : Lexical j) : parse (j.print.push 0x0A).data.toList = some j := by
  have hstart : Stands ByteArray.empty Parser.initial := rfl
  have hprint : Ends j.print ⟨.after j, []⟩ := h.readable 0 awaits_value hstart
  have hline : Stands (j.print.push 0x0A) ⟨.after j, []⟩ := hprint.push rfl rfl rfl
  rw [parse, hline]
  rfl

end Emend.Json
