import Emend.Proofs.Artifact.BufferSize
import Emend.Proofs.Artifact.Header.Lexeme
import Emend.Proofs.Lists

/-! What the definitions of a C header say. They can be read back, and tell the numbers of each
region and the bytes, and nothing else. -/
namespace Emend

/-- What is recorded of a region in numbers. -/
def Region.numbers (d : Region) : UInt32 × UInt16 × UInt16 × UInt32 × LinkWidth :=
  (d.offset, d.shortest, d.longest, d.size, d.linkWidth)

namespace Artifact.Header

/-- A name with the one value, or the list of values, that it stands for. -/
structure Declaration where
  name : String
  values : List String
  deriving DecidableEq, Repr

mutual
/-- The declarations of a header, in order. -/
def declarations? : List Lexeme → Option (List Declaration)
  | [] => some []
  | .mark '#' :: .word "pragma" :: .word _ :: rest => declarations? rest
  | .mark '#' :: .word "define" :: .word name :: .word value :: rest =>
    (declarations? rest).map (⟨name, [value]⟩ :: ·)
  | .word "static" :: .word "const" :: .word _ :: .word name :: .mark '[' :: .word _ ::
      .mark ']' :: .word "PROGMEM" :: .mark '=' :: .mark '\x7b' :: rest => values? name [] rest
  | _ => none

/-- The declarations from the middle of a list of values on, `values` being those before. -/
def values? (name : String) (values : List String) : List Lexeme → Option (List Declaration)
  | .mark '\x7d' :: .mark ';' :: rest => (declarations? rest).map (⟨name, values⟩ :: ·)
  | .word v :: .mark ',' :: rest => values? name (values ++ [v]) rest
  | .word v :: .mark '\x7d' :: .mark ';' :: rest =>
    (declarations? rest).map (⟨name, values ++ [v]⟩ :: ·)
  | _ => none
end

/-- The numbers that a declaration gives its name. -/
def Declaration.numbers? (d : Declaration) : Option (String × List Nat) :=
  (d.values.mapM number?).map fun ns => (d.name, ns)

/-- The names that a header defines, with their numbers. -/
def constants? (text : String) : Option (List (String × List Nat)) :=
  (declarations? (lex text.toList)).bind fun ds => ds.mapM Declaration.numbers?

/-- How many of the values of a name begin with `0x`. -/
def hexCount? (text name : String) : Option Nat :=
  (declarations? (lex text.toList)).bind fun ds =>
    (ds.find? (·.name = name)).map (·.values.countP fun w => ['0', 'x'].isPrefixOf w.toList)

variable {name value type bound : String} {vs ws : List String} {ls ms rest : List Lexeme}
  {bs : List UInt8} {s t : List Char} {a b : Artifact}

/-! Declarations as words and marks. -/

def define (name value : String) : List Lexeme :=
  [.mark '#', .word "define", .word name, .word value]

def arrayHead (type name bound : String) : List Lexeme :=
  [.word "static", .word "const", .word type, .word name, .mark '[', .word bound, .mark ']',
    .word "PROGMEM", .mark '=']

def bracesOf (values : List String) : List Lexeme :=
  .mark '\x7b' :: (separated values ++ [.mark '\x7d', .mark ';'])

theorem declarations?_pragma :
    declarations? ([.mark '#', .word "pragma", .word "once"] ++ rest) = declarations? rest := rfl

theorem declarations?_define : declarations? (define name value ++ rest) =
    (declarations? rest).map (⟨name, [value]⟩ :: ·) := rfl

theorem values?_separated :
    values? name vs (separated ws ++ ([.mark '\x7d', .mark ';'] ++ rest)) =
      (declarations? rest).map (⟨name, vs ++ ws⟩ :: ·) := by
  induction ws using separated.induct generalizing vs with
  | case1 => simp [separated, values?]
  | case2 w => simp [separated, values?]
  | case3 w v ws ih =>
    rw [separated, List.cons_append, List.cons_append, values?, ih, List.append_assoc]
    rfl

theorem declarations?_array :
    declarations? (arrayHead type name bound ++ (bracesOf vs ++ rest)) =
      (declarations? rest).map (⟨name, vs⟩ :: ·) := by
  have hvalues : values? name [] (separated vs ++ ([.mark '\x7d', .mark ';'] ++ rest)) =
      (declarations? rest).map (⟨name, [] ++ vs⟩ :: ·) := values?_separated
  rw [List.nil_append] at hvalues
  rw [← hvalues, bracesOf, List.cons_append, List.append_assoc]
  rfl

/-! Bytes. -/

/-- A byte as it is written. -/
def hexWord (b : UInt8) : String := token b true

theorem toList_hexWord (b : UInt8) :
    (hexWord b).toList = ['0', 'x', hexDigit (b / 16), hexDigit (b % 16)] := by
  simp [hexWord, token]

theorem hexDigit_spec {n : UInt8} (h : n.toNat < 16) :
    isWordChar (hexDigit n) = true ∧ hexValue? (hexDigit n) = some n.toNat := by
  have hall : ∀ m < 16, isWordChar (hexDigit (UInt8.ofNat m)) = true ∧
      hexValue? (hexDigit (UInt8.ofNat m)) = some m := by decide
  have hn := hall n.toNat h
  rwa [UInt8.ofNat_toNat] at hn

theorem toNat_div_mod (b : UInt8) : (b / 16).toNat < 16 ∧ (b % 16).toNat < 16 ∧
    16 * (b / 16).toNat + (b % 16).toNat = b.toNat := by
  have hlt := b.toNat_lt
  rw [UInt8.toNat_div, UInt8.toNat_mod, show (16 : UInt8).toNat = 16 from rfl]
  omega

theorem isWord_hexWord (b : UInt8) : IsWord (hexWord b) := by
  obtain ⟨hhigh, hlow, -⟩ := toNat_div_mod b
  rw [IsWord, toList_hexWord]
  refine ⟨by simp, ?_⟩
  intro c hc
  simp only [List.mem_cons, List.not_mem_nil, or_false] at hc
  rcases hc with rfl | rfl | rfl | rfl
  · rfl
  · rfl
  · exact (hexDigit_spec hhigh).1
  · exact (hexDigit_spec hlow).1

theorem number?_hexWord (b : UInt8) : number? (hexWord b) = some b.toNat := by
  obtain ⟨hhigh, hlow, hvalue⟩ := toNat_div_mod b
  simp only [number?, toList_hexWord, List.mapM_cons, List.mapM_nil, (hexDigit_spec hhigh).2,
    (hexDigit_spec hlow).2]
  simpa using hvalue

theorem open_token (b : UInt8) : Open (token b true).toList [.word (hexWord b)] :=
  open_word (isWord_hexWord b)

theorem closed_token (b : UInt8) :
    Closed (token b false).toList [.word (hexWord b), .mark ','] := by
  have htoken : (token b false).toList = (token b true).toList ++ (String.ofList [',']).toList := by
    simp [token]
  rw [htoken]
  exact (open_token b).append (closed_ofList rfl rfl) rfl

theorem closed_indent : Closed indent.toList [] := closed_ofList rfl rfl

/-- The next byte goes behind blanks, on the line or on a new one. -/
theorem wrapFrom_cons (out line : String) (b : UInt8) (bs : List UInt8) :
    ∃ out' line' blanks : String, Closed blanks.toList [] ∧
      out' ++ line' = out ++ line ++ blanks ++ token b bs.isEmpty ∧
      wrapFrom out line (b :: bs) = wrapFrom out' line' bs := by
  rw [wrapFrom]
  split
  next =>
    refine ⟨out, line ++ " " ++ token b bs.isEmpty, " ", closed_ofList rfl rfl, ?_, rfl⟩
    simp only [String.append_assoc]
  next =>
    refine ⟨out ++ line ++ "\n", indent ++ token b bs.isEmpty, "\n" ++ indent, ?_, ?_, rfl⟩
    · have hbreak : Closed "\n".toList [] := closed_ofList rfl rfl
      rw [String.toList_append]
      exact hbreak.append closed_indent
    · simp only [String.append_assoc]

theorem open_wrapFrom {b : UInt8} {text out line : String} (h : Closed text.toList ls)
    (hline : out ++ line = text ++ token b bs.isEmpty) :
    Open (wrapFrom out line bs).toList (ls ++ separated ((b :: bs).map hexWord)) := by
  induction bs generalizing b text out line ls with
  | nil =>
    rw [wrapFrom, hline, String.toList_append]
    exact h.append_open (open_token b)
  | cons c bs ih =>
    obtain ⟨out', line', blanks, hblanks, hline', hwrap⟩ := wrapFrom_cons out line c bs
    have hnext : Closed (out ++ line ++ blanks).toList (ls ++ [.word (hexWord b), .mark ',']) := by
      have hall := (h.append (closed_token b)).append hblanks
      rw [List.append_nil] at hall
      rw [hline, String.toList_append, String.toList_append]
      exact hall
    have hrest := ih hnext hline'
    rw [List.append_assoc] at hrest
    rw [hwrap]
    exact hrest

theorem open_wrap (bs : List UInt8) : Open (wrap bs).toList (separated (bs.map hexWord)) := by
  cases bs with
  | nil =>
    intro c rest hc
    rfl
  | cons b bs =>
    exact open_wrapFrom closed_indent String.empty_append

/-! The whole text. -/

theorem closed_braced (ns : List Nat) : Closed (braced ns).toList (bracesOf (ns.map toString)) := by
  have hopen : Closed "\x7b".toList [.mark '\x7b'] := closed_ofList rfl rfl
  have hclose : Closed "\x7d;\n".toList [.mark '\x7d', .mark ';'] := closed_ofList rfl rfl
  have hwords : ∀ w ∈ ns.map toString, IsWord w := by
    intro w hw
    obtain ⟨n, -, rfl⟩ := List.mem_map.mp hw
    exact isWord_toString n
  have hlist := (hopen.append_open (open_intercalate hwords)).append hclose rfl
  rw [braced, String.toList_append, String.toList_append]
  simpa [bracesOf] using hlist

theorem Closed.list (h : Closed s ls) (ht : Closed t ms) (ns : List Nat) :
    Closed (s ++ t ++ (braced ns).toList) (ls ++ ms ++ bracesOf (ns.map toString)) :=
  (h.append ht).append (closed_braced ns)

theorem Closed.number (h : Closed s ls) (n : Nat) :
    Open (s ++ (toString n).toList) (ls ++ [.word (toString n)]) :=
  h.append_open (open_word (isWord_toString n))

/-- What the definitions are made of, line by line. -/
theorem lex_definitions (a : Artifact) : lex (definitions a).toList =
    [.mark '#', .word "pragma", .word "once"] ++
    (define "N_DICTS" (toString a.regions.length) ++
    (arrayHead "uint32_t" "autocorrect_offsets" "N_DICTS" ++
    (bracesOf ((a.regions.map fun d => d.offset.toNat).map toString) ++
    (arrayHead "uint16_t" "autocorrect_min_lengths" "N_DICTS" ++
    (bracesOf ((a.regions.map fun d => d.shortest.toNat).map toString) ++
    (arrayHead "uint16_t" "autocorrect_max_lengths" "N_DICTS" ++
    (bracesOf ((a.regions.map fun d => d.longest.toNat).map toString) ++
    (arrayHead "uint32_t" "autocorrect_sizes" "N_DICTS" ++
    (bracesOf ((a.regions.map fun d => d.size.toNat).map toString) ++
    (arrayHead "uint8_t" "autocorrect_node_size" "N_DICTS" ++
    (bracesOf ((a.regions.map fun d => d.linkWidth.bytes).map toString) ++
    (define "DICTIONARY_SIZE" (toString a.data.size) ++
    (define "TYPO_BUFFER_SIZE" (toString a.bufferSize.toNat) ++
    (arrayHead "uint8_t" "autocorrect_data" "DICTIONARY_SIZE" ++
      bracesOf (a.data.data.toList.map hexWord))))))))))))))) := by
  -- The text that is the same in every header can be read as it stands.
  have hopening : Closed "\n#pragma once\n\n#define N_DICTS ".toList
      [.mark '#', .word "pragma", .word "once", .mark '#', .word "define", .word "N_DICTS"] :=
    closed_ofList rfl rfl
  have hblank : Closed "\n\n".toList [] := closed_ofList rfl rfl
  have hoffsets : Closed
      "static const uint32_t autocorrect_offsets[N_DICTS] PROGMEM     = ".toList
      (arrayHead "uint32_t" "autocorrect_offsets" "N_DICTS") := closed_ofList rfl rfl
  have hshortest : Closed
      "static const uint16_t autocorrect_min_lengths[N_DICTS] PROGMEM = ".toList
      (arrayHead "uint16_t" "autocorrect_min_lengths" "N_DICTS") := closed_ofList rfl rfl
  have hlongest : Closed
      "static const uint16_t autocorrect_max_lengths[N_DICTS] PROGMEM = ".toList
      (arrayHead "uint16_t" "autocorrect_max_lengths" "N_DICTS") := closed_ofList rfl rfl
  have hsizes : Closed
      "static const uint32_t autocorrect_sizes[N_DICTS] PROGMEM       = ".toList
      (arrayHead "uint32_t" "autocorrect_sizes" "N_DICTS") := closed_ofList rfl rfl
  have hwidths : Closed
      "static const uint8_t  autocorrect_node_size[N_DICTS] PROGMEM   = ".toList
      (arrayHead "uint8_t" "autocorrect_node_size" "N_DICTS") := closed_ofList rfl rfl
  have hsize : Closed "\n#define DICTIONARY_SIZE ".toList
      [.mark '#', .word "define", .word "DICTIONARY_SIZE"] := closed_ofList rfl rfl
  have hbuffer : Closed "#define TYPO_BUFFER_SIZE ".toList
      [.mark '#', .word "define", .word "TYPO_BUFFER_SIZE"] := closed_ofList rfl rfl
  have hnewline : Closed "\n".toList [] := closed_ofList rfl rfl
  have hdata : Closed
      "static const uint8_t autocorrect_data[DICTIONARY_SIZE] PROGMEM = \x7b\n".toList
      (arrayHead "uint8_t" "autocorrect_data" "DICTIONARY_SIZE" ++ [.mark '\x7b']) :=
    closed_ofList rfl rfl
  have hend : Closed "\n\x7d;\n\n".toList [.mark '\x7d', .mark ';'] := closed_ofList rfl rfl
  -- Numbers go in between, and each ends where the text behind it begins.
  have hcounted := (hopening.number a.regions.length).append hblank rfl
  have hplaced := hcounted.list hoffsets (a.regions.map fun d => d.offset.toNat)
  have hspanned := (hplaced.list hshortest (a.regions.map fun d => d.shortest.toNat)).list
    hlongest (a.regions.map fun d => d.longest.toNat)
  have hmeasured := (hspanned.list hsizes (a.regions.map fun d => d.size.toNat)).list
    hwidths (a.regions.map fun d => d.linkWidth.bytes)
  have hsized := ((hmeasured.append hsize).number a.data.size).append hnewline rfl
  have hbuffered := ((hsized.append hbuffer).number a.bufferSize.toNat).append hblank rfl
  have hall := ((hbuffered.append hdata).append_open (open_wrap a.data.data.toList)).append hend rfl
  unfold definitions
  simp only [String.toList_append]
  refine hall.lex_eq.trans ?_
  simp only [define, arrayHead, bracesOf, List.append_assoc, List.cons_append, List.nil_append]

/-- The declarations of a header, with the words for their values. -/
theorem declarations?_definitions (a : Artifact) : declarations? (lex (definitions a).toList) = some
    [⟨"N_DICTS", [toString a.regions.length]⟩,
      ⟨"autocorrect_offsets", (a.regions.map fun d => d.offset.toNat).map toString⟩,
      ⟨"autocorrect_min_lengths", (a.regions.map fun d => d.shortest.toNat).map toString⟩,
      ⟨"autocorrect_max_lengths", (a.regions.map fun d => d.longest.toNat).map toString⟩,
      ⟨"autocorrect_sizes", (a.regions.map fun d => d.size.toNat).map toString⟩,
      ⟨"autocorrect_node_size", (a.regions.map fun d => d.linkWidth.bytes).map toString⟩,
      ⟨"DICTIONARY_SIZE", [toString a.data.size]⟩,
      ⟨"TYPO_BUFFER_SIZE", [toString a.bufferSize.toNat]⟩,
      ⟨"autocorrect_data", a.data.data.toList.map hexWord⟩] := by
  rw [lex_definitions, ← List.append_nil (bracesOf (a.data.data.toList.map hexWord))]
  simp only [declarations?_pragma, declarations?_define, declarations?_array]
  rfl

theorem numbers?_map {α : Type} {f : α → String} {g : α → Nat}
    (h : ∀ x, number? (f x) = some (g x)) (xs : List α) :
    Declaration.numbers? ⟨name, xs.map f⟩ = some (name, xs.map g) := by
  rw [Declaration.numbers?, List.mapM_map, mapM_eq_some_map (f := number? ∘ f) fun x _ => h x]
  rfl

/-- The names of a header stand for the fields of the regions, in their order, and for the bytes. -/
theorem constants?_definitions (a : Artifact) : constants? (definitions a) = some
    [("N_DICTS", [a.regions.length]),
      ("autocorrect_offsets", a.regions.map fun d => d.offset.toNat),
      ("autocorrect_min_lengths", a.regions.map fun d => d.shortest.toNat),
      ("autocorrect_max_lengths", a.regions.map fun d => d.longest.toNat),
      ("autocorrect_sizes", a.regions.map fun d => d.size.toNat),
      ("autocorrect_node_size", a.regions.map fun d => d.linkWidth.bytes),
      ("DICTIONARY_SIZE", [a.data.size]),
      ("TYPO_BUFFER_SIZE", [((a.regions.map fun d => d.longest.toNat).max?).getD 0]),
      ("autocorrect_data", a.data.data.toList.map (·.toNat))] := by
  have hlist (name : String) (ns : List Nat) :
      Declaration.numbers? ⟨name, ns.map toString⟩ = some (name, ns) := by
    simpa using numbers?_map number?_toString ns
  have hnumber (name : String) (n : Nat) :
      Declaration.numbers? ⟨name, [toString n]⟩ = some (name, [n]) := hlist name [n]
  rw [constants?, declarations?_definitions, ← toNat_bufferSize]
  simp only [Option.bind_some, List.mapM_cons, List.mapM_nil, hnumber, hlist,
    numbers?_map number?_hexWord]
  rfl

theorem hexCount?_definitions (a : Artifact) :
    hexCount? (definitions a) "autocorrect_data" = some a.data.size := by
  have hhex : (fun w : String => ['0', 'x'].isPrefixOf w.toList) ∘ hexWord = fun _ => true := by
    funext b
    rw [Function.comp_apply, toList_hexWord]
    rfl
  have hcount : (a.data.data.toList.map hexWord).countP
      (fun w => ['0', 'x'].isPrefixOf w.toList) = a.data.size := by
    rw [List.countP_map, hhex, List.countP_true]
    rfl
  rw [hexCount?, declarations?_definitions, Option.bind_some, ← hcount]
  rfl

/-! The numbers and the bytes. -/

/-- Names and pairs have no say in the definitions. -/
theorem definitions_congr (hregions : a.regions.map Region.numbers = b.regions.map Region.numbers)
    (hdata : a.data = b.data) : definitions a = definitions b := by
  have hfield {α : Type} (f : UInt32 × UInt16 × UInt16 × UInt32 × LinkWidth → α) :
      a.regions.map (fun d => f d.numbers) = b.regions.map fun d => f d.numbers := by
    have hmap := congrArg (List.map f) hregions
    rwa [List.map_map, List.map_map] at hmap
  have hlength : a.regions.length = b.regions.length := by
    simpa using congrArg List.length hregions
  have hoffset := hfield fun n => n.1.toNat
  have hshortest := hfield fun n => n.2.1.toNat
  have hlongest := hfield fun n => n.2.2.1.toNat
  have hsize := hfield fun n => n.2.2.2.1.toNat
  have hwidth := hfield fun n => n.2.2.2.2.bytes
  have hbuffer : a.bufferSize = b.bufferSize := by
    apply UInt16.toNat_inj.mp
    rw [toNat_bufferSize, toNat_bufferSize]
    exact congrArg (fun ns => (List.max? ns).getD 0) hlongest
  simp only [Region.numbers] at hoffset hshortest hlongest hsize hwidth
  unfold definitions
  simp only [hlength, hoffset, hshortest, hlongest, hsize, hwidth, hdata, hbuffer]

theorem map_eq_of_map_comp {α : Type} {ds es : List Region} {f : Region → α} {g : α → Nat}
    (hinj : ∀ x y, g x = g y → x = y)
    (h : (ds.map fun d => g (f d)) = es.map fun d => g (f d)) : ds.map f = es.map f := by
  apply (List.map_inj_right hinj).mp
  rwa [List.map_map, List.map_map]

theorem map_prod_eq {α β : Type} {ds es : List Region} {f : Region → α} {g : Region → β}
    (hf : ds.map f = es.map f) (hg : ds.map g = es.map g) :
    (ds.map fun d => (f d, g d)) = es.map fun d => (f d, g d) := by
  rw [← List.zip_map', hf, hg, List.zip_map']

/-- The lists of the five fields tell the numbers of each region. -/
theorem numbers_eq_of_constants? (h : constants? (definitions a) = constants? (definitions b)) :
    a.regions.map Region.numbers = b.regions.map Region.numbers ∧ a.data = b.data := by
  rw [constants?_definitions, constants?_definitions] at h
  simp only [Option.some.injEq, List.cons.injEq, Prod.mk.injEq, true_and, and_true] at h
  obtain ⟨-, hoffset, hshortest, hlongest, hsize, hwidth, -, -, hbytes⟩ := h
  have hbytes_inj : ∀ v w : LinkWidth, v.bytes = w.bytes → v = w := by
    rintro (_ | _) (_ | _) hvw
    all_goals first | rfl | cases hvw
  have hoffsets := map_eq_of_map_comp (fun _ _ => UInt32.toNat_inj.mp) hoffset
  have hshortests := map_eq_of_map_comp (fun _ _ => UInt16.toNat_inj.mp) hshortest
  have hlongests := map_eq_of_map_comp (fun _ _ => UInt16.toNat_inj.mp) hlongest
  have hsizes := map_eq_of_map_comp (fun _ _ => UInt32.toNat_inj.mp) hsize
  have hwidths := map_eq_of_map_comp hbytes_inj hwidth
  have hdata := (List.map_inj_right fun _ _ => UInt8.toNat_inj.mp).mp hbytes
  constructor
  · have hspans := map_prod_eq hlongests (map_prod_eq hsizes hwidths)
    exact map_prod_eq hoffsets (map_prod_eq hshortests hspans)
  · apply ByteArray.ext
    exact Array.toList_inj.mp hdata

/-- The definitions tell the numbers of each region and the bytes, and nothing else. Each is read
back under its name. -/
theorem definitions_determine (a : Artifact) :
    render a = comment a ++ definitions a ∧
      constants? (definitions a) = some
        [("N_DICTS", [a.regions.length]),
          ("autocorrect_offsets", a.regions.map fun d => d.offset.toNat),
          ("autocorrect_min_lengths", a.regions.map fun d => d.shortest.toNat),
          ("autocorrect_max_lengths", a.regions.map fun d => d.longest.toNat),
          ("autocorrect_sizes", a.regions.map fun d => d.size.toNat),
          ("autocorrect_node_size", a.regions.map fun d => d.linkWidth.bytes),
          ("DICTIONARY_SIZE", [a.data.size]),
          ("TYPO_BUFFER_SIZE", [((a.regions.map fun d => d.longest.toNat).max?).getD 0]),
          ("autocorrect_data", a.data.data.toList.map (·.toNat))] ∧
      hexCount? (definitions a) "autocorrect_data" = some a.data.size ∧
      ∀ b : Artifact, definitions a = definitions b ↔
        a.regions.map Region.numbers = b.regions.map Region.numbers ∧ a.data = b.data := by
  refine ⟨rfl, constants?_definitions a, hexCount?_definitions a, ?_⟩
  intro b
  constructor
  · intro h
    apply numbers_eq_of_constants?
    rw [h]
  · rintro ⟨hregions, hdata⟩
    exact definitions_congr hregions hdata

end Artifact.Header
end Emend
