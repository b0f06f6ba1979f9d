import Emend.Artifact.Header

/-! The words and marks that a C header is made of. White space only keeps words apart, so it has no
say where a line is broken. -/
namespace Emend.Artifact.Header

inductive Lexeme
  | word (text : String)
  | mark (c : Char)
  deriving DecidableEq, Repr

/-- A character of names and numbers. -/
def isWordChar (c : Char) : Bool := c.isAlphanum || c == '_'

def wordOf (cs : List Char) : List Lexeme :=
  if cs.isEmpty then [] else [.word (String.ofList cs)]

def markOf (c : Char) : List Lexeme := if c.isWhitespace then [] else [.mark c]

/-- `word` holds the characters of the word that is being read. -/
def lexFrom (word : List Char) : List Char → List Lexeme
  | [] => wordOf word
  | c :: cs =>
    if isWordChar c then lexFrom (word ++ [c]) cs
    else wordOf word ++ (markOf c ++ lexFrom [] cs)

def lex (cs : List Char) : List Lexeme := lexFrom [] cs

def hexValue? (c : Char) : Option Nat :=
  if c.isDigit then some (c.toNat - '0'.toNat)
  else if 'A' ≤ c ∧ c ≤ 'F' then some (c.toNat - 'A'.toNat + 10)
  else none

/-- A number in decimal digits, or in hexadecimal ones after `0x`. -/
def number? (text : String) : Option Nat :=
  match text.toList with
  | '0' :: 'x' :: ds => (ds.mapM hexValue?).map (List.foldl (fun n d => 16 * n + d) 0)
  | ds => if ds.all Char.isDigit then some (Nat.ofDigitChars 10 ds 0) else none

/-- Words with commas between them. -/
def separated : List String → List Lexeme
  | [] => []
  | [w] => [.word w]
  | w :: v :: ws => .word w :: .mark ',' :: separated (v :: ws)

variable {word s t u : List Char} {ls ms : List Lexeme} {c : Char} {rest : List Char}
  {w : String} {ws : List String}

/-! Texts one behind the other. -/

theorem lexFrom_append (h : ∀ c ∈ u, isWordChar c = true) :
    lexFrom word (u ++ rest) = lexFrom (word ++ u) rest := by
  induction u generalizing word with
  | nil => simp
  | cons c u ih =>
    obtain ⟨hc, hu⟩ := List.forall_mem_cons.mp h
    rw [List.cons_append, lexFrom, if_pos hc, ih hu, List.append_assoc]
    rfl

theorem lexFrom_break (hc : isWordChar c = false) :
    lexFrom word (c :: rest) = wordOf word ++ lex (c :: rest) := by
  simp [lex, lexFrom, hc, wordOf]

theorem lexFrom_append_break (hc : isWordChar c = false) :
    lexFrom word (s ++ c :: rest) = lexFrom word (s ++ [c]) ++ lex rest := by
  induction s generalizing word with
  | nil => simp [lexFrom, hc, wordOf, lex]
  | cons d s ih =>
    by_cases hd : isWordChar d = true
    · simp [lexFrom, hd, ih]
    · simp [lexFrom, hd, ih]

/-- A text is read as `ls` whatever follows it. -/
def Closed (s : List Char) (ls : List Lexeme) : Prop :=
  ∀ rest, lex (s ++ rest) = ls ++ lex rest

/-- A text is read as `ls` if no word goes on behind it. -/
def Open (s : List Char) (ls : List Lexeme) : Prop :=
  ∀ c rest, isWordChar c = false → lex (s ++ c :: rest) = ls ++ lex (c :: rest)

theorem Closed.append (h : Closed s ls) (ht : Closed t ms) : Closed (s ++ t) (ls ++ ms) := by
  intro rest
  rw [List.append_assoc, h, ht, List.append_assoc]

theorem Closed.append_open (h : Closed s ls) (ht : Open t ms) : Open (s ++ t) (ls ++ ms) := by
  intro c rest hc
  rw [List.append_assoc, h, ht c rest hc, List.append_assoc]

theorem Open.append (h : Open s ls) (ht : Closed t ms)
    (hhead : t.head?.map isWordChar = some false) : Closed (s ++ t) (ls ++ ms) := by
  intro rest
  cases t with
  | nil => cases hhead
  | cons c t =>
    rw [List.append_assoc, List.cons_append, h c _ (Option.some.inj hhead), ← List.cons_append, ht,
      List.append_assoc]

theorem Closed.lex_eq (h : Closed s ls) : lex s = ls := by
  have hall := h []
  rw [List.append_nil] at hall
  rw [hall, lex, lexFrom, wordOf]
  simp

/-- A text that ends between words. -/
theorem closed_ofList (hlast : s.getLast?.map isWordChar = some false) (hlex : lex s = ls) :
    Closed (String.ofList s).toList ls := by
  intro rest
  obtain ⟨c, hc, hbreak⟩ := Option.map_eq_some_iff.mp hlast
  obtain ⟨before, rfl⟩ := List.getLast?_eq_some_iff.mp hc
  rw [String.toList_ofList, ← hlex, List.append_assoc, List.singleton_append]
  exact lexFrom_append_break hbreak

/-! Words. -/

/-- A text that is one word. -/
def IsWord (w : String) : Prop := w.toList ≠ [] ∧ ∀ c ∈ w.toList, isWordChar c = true

theorem open_word (h : IsWord w) : Open w.toList [.word w] := by
  intro c rest hc
  have hne : w.toList.isEmpty = false := by simpa using h.1
  rw [lex, lexFrom_append h.2, List.nil_append, lexFrom_break hc, wordOf, hne, String.ofList_toList]
  rfl

theorem open_intercalate (h : ∀ w ∈ ws, IsWord w) :
    Open (String.intercalate ", " ws).toList (separated ws) := by
  have hcomma : Closed ", ".toList [.mark ','] := closed_ofList rfl rfl
  induction ws using separated.induct with
  | case1 =>
    intro c rest hc
    rfl
  | case2 w =>
    have hw := open_word (h w List.mem_cons_self)
    simpa [separated] using hw
  | case3 w v ws ih =>
    obtain ⟨hw, hws⟩ := List.forall_mem_cons.mp h
    have hwhole : (String.intercalate ", " (w :: v :: ws)).toList =
        w.toList ++ (", ".toList ++ (String.intercalate ", " (v :: ws)).toList) := by
      simp [String.toList_intercalate]
    rw [hwhole, ← List.append_assoc]
    exact ((open_word hw).append hcomma rfl).append_open (ih hws)

/-! Numbers. -/

theorem toList_toString (n : Nat) : (toString n).toList = Nat.toDigits 10 n := Nat.toList_repr

theorem isWordChar_of_isDigit (h : c.isDigit = true) : isWordChar c = true := by
  simp [isWordChar, Char.isAlphanum, h]

theorem isDigit_of_mem_toString {n : Nat} (h : c ∈ (toString n).toList) : c.isDigit = true := by
  rw [toList_toString] at h
  exact Nat.isDigit_of_mem_toDigits (by decide) (by decide) h

theorem isWord_toString (n : Nat) : IsWord (toString n) := by
  constructor
  · rw [toList_toString]
    exact Nat.toDigits_ne_nil
  · intro c hc
    exact isWordChar_of_isDigit (isDigit_of_mem_toString hc)

theorem number?_toString (n : Nat) : number? (toString n) = some n := by
  have hdigits : (toString n).toList.all Char.isDigit = true :=
    List.all_eq_true.mpr fun c hc => isDigit_of_mem_toString hc
  unfold number?
  split
  next ds hds =>
    rw [hds] at hdigits
    simp at hdigits
  next =>
    rw [if_pos hdigits, toList_toString, Nat.ofDigitChars_toDigits (by decide) (by decide)]

end Emend.Artifact.Header
