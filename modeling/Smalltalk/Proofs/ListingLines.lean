import Mathlib
import Smalltalk.ObjectFile.Listing
import Smalltalk.Proofs.BlockNumbering
import Smalltalk.Proofs.Decoding

/-!
# The lines of a listing

A listing has a heading of five lines. Then every method and every block has four lines of its own, one for
each instruction, and one more if blocks follow. Names and numbers never break a line. Literals can, since
strings of the source and names of files are written as they are: a listing has just these lines if there is
no newline in a literal, and more of them otherwise.
-/

namespace Smalltalk

open Bytecode Number Text

/-! ## Newlines in texts -/

/-- How many newlines a text has. -/
def breaks (s : String) : Nat := s.toList.count '\n'

theorem breaks_append (s t : String) : breaks (s ++ t) = breaks s + breaks t := by
  rw [breaks, String.toList_append, List.count_append]
  rfl

/-- A text has as many newlines after a label as it has alone. -/
theorem breaks_append_of_eq_zero {label : String} (h : breaks label = 0) (s : String) :
    breaks (label ++ s) = breaks s := by
  rw [breaks_append, h, Nat.zero_add]

theorem breaks_ofList {cs : List Char} (h : '\n' ∉ cs) : breaks (String.ofList cs) = 0 := by
  rw [breaks, String.toList_ofList, List.count_eq_zero_of_not_mem h]

theorem breaks_join (lines : List String) : breaks (String.join lines) = (lines.map breaks).sum := by
  induction lines with
  | nil => rfl
  | cons line lines ih => rw [String.join_cons, breaks_append, ih, List.map_cons, List.sum_cons]

theorem breaks_intercalate {separator : String} (h : breaks separator = 0) (texts : List String) :
    breaks (String.intercalate separator texts) = (texts.map breaks).sum := by
  induction texts with
  | nil => rfl
  | cons text texts ih =>
    cases texts with
    | nil => simp
    | cons next texts =>
      rw [String.intercalate_cons_cons, breaks_append, breaks_append, h, ih, add_zero]
      rfl

theorem newline_notMem_toDigits (n : Nat) : '\n' ∉ Nat.toDigits 10 n := fun h => by
  have hdigit := Nat.isDigit_of_mem_toDigits (by decide) (by decide) h
  revert hdigit
  decide

theorem newline_notMem_replicate {c : Char} (h : c ≠ '\n') (n : Nat) : '\n' ∉ List.replicate n c := fun hmem =>
  h (List.eq_of_mem_replicate hmem).symm

theorem breaks_natRepr (n : Nat) : breaks n.repr = 0 :=
  breaks_ofList (newline_notMem_toDigits n)

theorem breaks_intRepr (i : Int) : breaks i.repr = 0 := by
  cases i with
  | ofNat n => exact breaks_natRepr n
  | negSucc n =>
    show breaks ("-" ++ (n + 1).repr) = 0
    rw [breaks_append, breaks_natRepr]
    rfl

theorem breaks_offsetText (offset : Nat) : breaks (offsetText offset) = 0 := by
  refine breaks_ofList fun h => ?_
  obtain h | h := List.mem_append.mp h
  · exact newline_notMem_replicate (by decide) _ h
  · exact newline_notMem_toDigits offset h

theorem breaks_charText (code : UInt16) : breaks (Instruction.charText code) = 0 := by
  rw [Instruction.charText]
  split
  · dsimp only
    split
    · exact breaks_natRepr _
    · next hvalid hcontrol =>
      refine breaks_ofList fun h => hcontrol ?_
      have hnewline : '\n' = Char.ofNatAux code.toNat hvalid := by simpa using h
      rw [← hnewline]
      decide
  · exact breaks_natRepr _

theorem breaks_positional (d : Decimal) : breaks (FloatStyle.positional d) = 0 := by
  have hpadded : '\n' ∉ List.replicate ((-d.exponent).toNat + 1 - (Nat.toDigits 10 d.digits).length) '0'
      ++ Nat.toDigits 10 d.digits ++ List.replicate d.exponent.toNat '0' := fun h => by
    obtain h | h := List.mem_append.mp h
    · obtain h | h := List.mem_append.mp h
      · exact newline_notMem_replicate (by decide) _ h
      · exact newline_notMem_toDigits _ h
    · exact newline_notMem_replicate (by decide) _ h
  refine breaks_ofList fun h => ?_
  obtain h | h := List.mem_append.mp h
  · exact hpadded (List.mem_of_mem_take h)
  · obtain h | h := List.mem_cons.mp h
    · exact absurd h (by decide)
    · split at h
      · exact absurd h (by decide)
      · exact hpadded (List.mem_of_mem_drop h)

theorem breaks_scientific (d : Decimal) : breaks (FloatStyle.scientific d) = 0 := by
  rw [FloatStyle.scientific]
  split
  · rfl
  · next first others hdigits =>
    have hnone : '\n' ∉ first :: others := hdigits ▸ newline_notMem_toDigits d.digits
    dsimp only
    rw [breaks_append]
    have htail : breaks (toString (d.exponent + others.length)) = 0 := breaks_intRepr _
    rw [htail, breaks_ofList]
    split <;> simp_all

theorem breaks_single (style : FloatStyle) (bits : UInt32) : breaks (style.single bits) = 0 := by
  have hsign (p : Prop) [Decidable p] : breaks (if p then "-" else "") = 0 := by
    split <;> rfl
  rw [FloatStyle.single]
  dsimp only
  split
  · rfl
  split
  · rw [breaks_append, hsign]
    rfl
  split
  · rw [breaks_append, hsign]
    rfl
  split
  · rw [breaks_append, hsign, breaks_positional]
  · rw [breaks_append, hsign, breaks_scientific]

theorem breaks_mnemonic (op : Opcode) : breaks op.mnemonic = 0 := by
  cases op <;> rfl

theorem breaks_column (op : Opcode) : breaks (Instruction.column op) = 0 := by
  rw [Instruction.column, breaks_append, breaks_mnemonic,
    breaks_ofList (newline_notMem_replicate (by decide) _)]

/-- An instruction breaks its line only through the literal that it names. -/
theorem breaks_textWith (literal : UInt16 → String) (i : Instruction) :
    breaks (i.textWith literal) = i.literal?.elim 0 fun index => breaks (literal index) := by
  have hcomma : breaks ", " = 0 := rfl
  have hcolon : breaks ":" = 0 := rfl
  cases i <;> simp [Instruction.textWith, Instruction.literal?, breaks_append, breaks_column, breaks_mnemonic,
    breaks_charText, breaks_natRepr, breaks_intRepr, breaks_single, hcomma, hcolon]

/-! ## Names of definitions -/

theorem breaks_of_forall {p : Char → Bool} (hnewline : p '\n' = false) {s : String} (h : ∀ c ∈ s.toList, p c) :
    breaks s = 0 :=
  List.count_eq_zero_of_not_mem fun hmem => absurd (h _ hmem) (by rw [hnewline]; exact Bool.false_ne_true)

theorem breaks_of_isName {s : String} (h : IsName s.toList) : breaks s = 0 :=
  breaks_of_forall (p := isNameChar) (by decide +kernel) h.2

theorem breaks_of_isSymbolName {s : String} (h : IsSymbolName s.toList) : breaks s = 0 :=
  breaks_of_forall (p := fun c => isNameChar c || c == ':') (by decide +kernel) h.2

theorem breaks_of_isKeyword {s : String} (h : IsKeyword s.toList) : breaks s = 0 := by
  obtain ⟨name, hname, hs⟩ := h
  refine breaks_of_isSymbolName ⟨by simp [hs], fun c hc => ?_⟩
  rw [hs, List.mem_append, List.mem_singleton] at hc
  rcases hc with hc | rfl
  · rw [hname.2 c hc, Bool.true_or]
  · exact Bool.or_true _

/-- Whether all names that a class definition gives are on one line. -/
structure ClassDef.OneLine (d : ClassDef) : Prop where
  name : breaks d.name.name = 0
  superclass : ∀ x ∈ d.superclass, breaks x.name = 0
  fields : ∀ x ∈ d.fields, breaks x.name = 0
  selectors : ∀ m ∈ d.methods, breaks m.selector.name = 0

theorem ClassDef.oneLine_of_bare {d : ClassDef} (h : d.bare.OneLine) : d.OneLine where
  name := h.name
  superclass x hx := h.superclass x.bare (Option.mem_map_of_mem Ident.bare hx)
  fields x hx := h.fields x.bare (List.mem_map_of_mem hx)
  selectors m hm := h.selectors m.bare (List.mem_map_of_mem hm)

namespace Grammar

variable {ts rest : List Token}

theorem Name.breaks_eq {x : Ident} (h : Name ts x rest) (hts : AllSpelled ts) : breaks x.name = 0 := by
  cases h with
  | mk token =>
    have hspelled := (List.forall_mem_cons.mp hts).1
    rw [Token.IsSpelled, token] at hspelled
    exact breaks_of_isName hspelled

theorem Superclass.breaks_eq {t : Token} {parent : Option Ident} (h : Superclass t parent) (ht : t.IsSpelled) :
    ∀ x ∈ parent, breaks x.name = 0 := by
  cases h with
  | name token =>
    intro x hx
    rw [Token.IsSpelled, token] at ht
    rw [← Option.mem_some_iff.mp hx]
    exact breaks_of_isName ht
  | none => exact fun x hx => absurd hx (Option.not_mem_none x)

theorem IsOperator.breaks_eq {t : Token} (h : IsOperator t) (ht : t.IsSpelled) : breaks t.lexeme = 0 := by
  rw [Token.IsSpelled] at ht
  rcases h with ⟨op, hop⟩ | hbar
  · rw [hop] at ht
    exact breaks_of_forall (p := isOperatorChar) (by decide) ht.2
  · rw [hbar] at ht
    have hlexeme : t.lexeme = "|" := String.toList_inj.mp ht
    rw [hlexeme]
    rfl

theorem MethodHeader.breaks_eq {header : Ident × List Ident} (h : MethodHeader ts header rest)
    (hts : AllSpelled ts) : breaks header.1.name = 0 := by
  cases h with
  | unary token =>
    have ht := (List.forall_mem_cons.mp hts).1
    rw [Token.IsSpelled, token] at ht
    exact breaks_of_isName ht
  | binary operator param => exact operator.breaks_eq (List.forall_mem_cons.mp hts).1
  | @keyword _ _ part parts words =>
    have hkeywords := words.forall_mem (fun _ _ _ _ hts h => h.isKeyword hts)
      (fun _ _ _ => KeywordParameter.leaves) le_rfl hts
    show breaks (String.join ((part :: parts).map (·.1))) = 0
    rw [breaks_join, List.map_map]
    exact List.sum_eq_zero (List.forall_mem_map.mpr fun w hw => breaks_of_isKeyword (hkeywords w hw))

theorem Member.breaks_eq {m : MethodDef} (h : Member ts m rest) (hts : AllSpelled ts) :
    breaks m.selector.name = 0 := by
  cases h with
  | instanceSide head block => exact head.breaks_eq hts
  | classSide word head block => exact head.breaks_eq (List.forall_mem_cons.mp hts).2

theorem Variables.breaks_eq {xs : List Ident} (h : Variables ts xs rest) (hts : AllSpelled ts) :
    ∀ x ∈ xs, breaks x.name = 0 := by
  cases h with
  | none => exact fun x hx => absurd hx List.not_mem_nil
  | some opening names closing =>
    exact names.forall_mem (fun _ _ _ _ hts h => h.breaks_eq hts) (fun _ _ _ => Name.leaves) le_rfl
      (List.forall_mem_cons.mp hts).2

theorem ClassPhrase.oneLine {d : ClassDef} (h : ClassPhrase ts d rest) (hts : AllSpelled ts) : d.OneLine := by
  cases h with
  | mk superclass word symbol hopening fields bar members hclosing =>
    obtain ⟨hparent, hts⟩ := List.forall_mem_cons.mp hts
    obtain ⟨-, hts⟩ := List.forall_mem_cons.mp hts
    obtain ⟨hname, hts⟩ := List.forall_mem_cons.mp hts
    obtain ⟨-, hts⟩ := List.forall_mem_cons.mp hts
    rw [Token.IsSpelled, symbol] at hname
    refine ⟨breaks_of_isSymbolName hname, superclass.breaks_eq hparent, fields.breaks_eq hts, ?_⟩
    exact members.forall_mem (fun _ _ _ _ hts h => h.breaks_eq hts) (fun _ _ _ => Member.leaves) le_rfl
      (fields.leaves.allSpelled hts)

end Grammar

/-- All names that a source text gives are on one line. -/
theorem SourceUnit.oneLine_of_ofSource {source : String} {u : SourceUnit}
    (h : SourceUnit.ofSource source = .ok u) : ∀ d ∈ u.allClasses, d.OneLine := by
  have hts : AllSpelled (Cursor.ofTokens (tokens source)).tokens :=
    isSpelled_of_mem_ofTokens isSpelled_of_mem_tokens
  obtain ⟨us, rest, hclasses, -, -⟩ := SourceUnit.phrases_of_ofCursor (ofTokens_ne_nil _) h
  have hphrases := hclasses.forall_mem (fun _ _ _ _ hts h => h.oneLine hts)
    (fun _ _ _ => Grammar.ClassPhrase.leaves) le_rfl hts
  rw [List.forall_mem_map] at hphrases
  intro d hd
  rcases List.mem_append.mp hd with hd | hd
  · exact ClassDef.oneLine_of_bare (hphrases d hd)
  · unfold mainClass? at hd
    split at hd
    · cases hd
    · cases List.mem_singleton.mp hd
      have hname : breaks mainClassName = 0 := rfl
      have hmain : breaks mainMethodName = 0 := rfl
      refine ⟨hname, fun x hx => ?_, fun x hx => absurd hx List.not_mem_nil, List.forall_mem_singleton.mpr hmain⟩
      rw [← Option.mem_some_iff.mp hx]
      rfl

/-! ## Bodies -/

namespace CompiledBlock

mutual

/-- A method or block, and all blocks in it. -/
def bodies : CompiledBlock → List CompiledBlock
  | b@⟨_, _, _, _, _, _, _, blocks⟩ => b :: bodiesOfAll blocks

/-- Methods or blocks, and all blocks in them, in the order in which they are listed. -/
def bodiesOfAll : List CompiledBlock → List CompiledBlock
  | [] => []
  | b :: bs => b.bodies ++ bodiesOfAll bs

end

theorem bodies_eq (b : CompiledBlock) : b.bodies = b :: bodiesOfAll b.blocks := by
  cases b
  rw [bodies]

theorem bodiesOfAll_eq_flatMap (bs : List CompiledBlock) : bodiesOfAll bs = bs.flatMap bodies := by
  induction bs with
  | nil => rw [bodiesOfAll, List.flatMap_nil]
  | cons b bs ih => rw [bodiesOfAll, List.flatMap_cons, ih]

/-- Blocks without blocks are all that there is. -/
theorem bodiesOfAll_of_flat {bs : List CompiledBlock} (h : ∀ b ∈ bs, b.blocks = []) : bodiesOfAll bs = bs := by
  have hbodies : ∀ b ∈ bs, b.bodies = [b] := fun b hb => by rw [bodies_eq, h b hb, bodiesOfAll]
  rw [bodiesOfAll_eq_flatMap, List.flatMap_congr hbodies, List.flatMap_singleton']

theorem bodiesOfAll_cons (b : CompiledBlock) (bs : List CompiledBlock) :
    bodiesOfAll (b :: bs) = b :: bodiesOfAll b.blocks ++ bodiesOfAll bs := by
  rw [bodiesOfAll, bodies_eq]

theorem sum_bodiesOfAll_cons (f : CompiledBlock → Nat) (b : CompiledBlock) (bs : List CompiledBlock) :
    ((bodiesOfAll (b :: bs)).map f).sum =
      f b + ((bodiesOfAll b.blocks).map f).sum + ((bodiesOfAll bs).map f).sum := by
  rw [bodiesOfAll_cons, List.map_append, List.map_cons, List.sum_append, List.sum_cons]

theorem listingOfAll_cons (literals : Array String) (depth : Nat) (b : CompiledBlock)
    (bs : List CompiledBlock) :
    listingOfAll literals depth (b :: bs) = String.join ((b.ownLines literals).map (indented depth))
      ++ listingOfAll literals (depth + 1) b.blocks ++ listingOfAll literals depth bs := by
  rw [listingOfAll]
  cases b
  rw [listing]

/-- What holds of methods or blocks if it holds of those in the first one and of the others. -/
theorem forest_induction {P : List CompiledBlock → Prop} (nil : P [])
    (cons : ∀ b bs, P b.blocks → P bs → P (b :: bs)) (bs : List CompiledBlock) : P bs :=
  @CompiledBlock.rec_1 (fun b => P b.blocks) P (fun _ _ _ _ _ _ _ _ h => h) nil cons bs

end CompiledBlock

/-! ## Lines -/

/-- A line so many levels to the right. -/
def atLevel (depth : Nat) (line : String) : String := String.ofList (List.replicate (4 * depth) ' ') ++ line

/-- The lines of instructions, each with the offset of its first byte. The first one is at `offset`. -/
def instructionLines (literals : Array String) (depth : Nat) : Nat → List Instruction → List String
  | _, [] => []
  | offset, i :: code =>
    atLevel depth (offsetText offset ++ ":  " ++ i.textWith (literalText literals))
      :: instructionLines literals depth (offset + i.encode.length) code

namespace CompiledBlock

/-- The four lines before the instructions of a method or block. -/
def frameLines (b : CompiledBlock) : List String :=
  ["name: " ++ (if b.classSide then "static " else "") ++ b.name,
   "qualifiedName: " ++ b.qualifiedName,
   "nargs: " ++ toString b.argumentCount,
   "nlocals: " ++ toString b.localCount]

/-- The line that says that blocks follow. -/
def blocksLine (b : CompiledBlock) : List String := if b.blocks.isEmpty then [] else ["blocks:"]

end CompiledBlock

/-- The lines of methods or blocks at a level: each has its frame, its instructions, a line before its blocks
if there are any, and the lines of these blocks, which are one level further to the right. -/
inductive Listed (literals : Array String) : Nat → List CompiledBlock → List String → Prop where
  | nil {depth : Nat} : Listed literals depth [] []
  | cons {depth : Nat} {b : CompiledBlock} {bs : List CompiledBlock} {code : List Instruction}
      {inner rest : List String} (encoded : encode code = b.code)
      (blocks : Listed literals (depth + 1) b.blocks inner) (others : Listed literals depth bs rest) :
    Listed literals depth (b :: bs)
      (b.frameLines.map (atLevel depth) ++ instructionLines literals depth 0 code
        ++ b.blocksLine.map (atLevel depth) ++ inner ++ rest)

/-- Lines as a text: each ends with a newline. -/
def textOfLines (lines : List String) : String := String.join (lines.map (· ++ "\n"))

theorem textOfLines_append (lines lines' : List String) :
    textOfLines (lines ++ lines') = textOfLines lines ++ textOfLines lines' := by
  rw [textOfLines, List.map_append, String.join_append]
  rfl

theorem join_map_indented (depth : Nat) (lines : List String) :
    String.join (lines.map (indented depth)) = textOfLines (lines.map (atLevel depth)) := by
  rw [textOfLines, List.map_map]
  rfl

theorem map_located (literals : Array String) (depth offset : Nat) (code : List Instruction) :
    ((located offset code).map fun entry =>
        offsetText entry.1 ++ ":  " ++ entry.2.textWith (literalText literals)).map (atLevel depth) =
      instructionLines literals depth offset code := by
  induction code generalizing offset with
  | nil => rfl
  | cons i code ih =>
    rw [located, instructionLines, Instruction.length_encode, ← ih]
    rfl

/-- The lines for code that can be decoded to the end. -/
theorem map_codeLines {literals : Array String} {bytes : List UInt8} (h : (decode bytes).failure? = none)
    (depth : Nat) : (codeLines literals bytes).map (atLevel depth) =
      instructionLines literals depth 0 (decode bytes).instructions := by
  rw [codeLines, h, ← map_located, Option.map_none, Option.toList_none, List.append_nil]

/-- Methods and blocks with code that can be decoded to the end are listed line by line. -/
theorem exists_listed {literals : Array String} {bs : List CompiledBlock}
    (h : ∀ b ∈ CompiledBlock.bodiesOfAll bs, (decode b.code).failure? = none) (depth : Nat) :
    ∃ lines, Listed literals depth bs lines ∧
      CompiledBlock.listingOfAll literals depth bs = textOfLines lines := by
  induction bs using CompiledBlock.forest_induction generalizing depth with
  | nil => exact ⟨[], .nil, by rw [CompiledBlock.listingOfAll]; rfl⟩
  | cons b bs ihb ihbs =>
    rw [CompiledBlock.bodiesOfAll_cons, List.forall_mem_append, List.forall_mem_cons] at h
    obtain ⟨⟨hb, hblocks⟩, hbs⟩ := h
    obtain ⟨inner, hinner, htext⟩ := ihb hblocks (depth + 1)
    obtain ⟨rest, hrest, htext'⟩ := ihbs hbs depth
    -- the instructions that a listing shows are those that the code encodes
    refine ⟨_, .cons (encode_decode b.code hb) hinner hrest, ?_⟩
    have hown : (b.ownLines literals).map (atLevel depth) =
        b.frameLines.map (atLevel depth) ++ instructionLines literals depth 0 (decode b.code).instructions
          ++ b.blocksLine.map (atLevel depth) := by
      rw [← map_codeLines hb, ← List.map_append, ← List.map_append]
      rfl
    rw [CompiledBlock.listingOfAll_cons, join_map_indented, htext, htext', ← textOfLines_append,
      ← textOfLines_append, hown]

/-! ## How many lines there are -/

/-- How many newlines the literal that an instruction names has. -/
def Bytecode.Instruction.literalBreaks (literals : Array String) (i : Instruction) : Nat :=
  (i.literal?.bind fun index => literals[index.toNat]?).elim 0 breaks

namespace CompiledBlock

/-- How many lines a method or block asks for, without its blocks. -/
def lineCount (b : CompiledBlock) : Nat := 4 + b.instructions.length + if b.blocks.isEmpty then 0 else 1

/-- How many newlines the literals in the lines of a method or block have. -/
def literalBreaks (literals : Array String) (b : CompiledBlock) : Nat :=
  (b.instructions.map (Instruction.literalBreaks literals)).sum

/-- Whether the names of a method or block are on one line. -/
def OneLine (b : CompiledBlock) : Prop := breaks b.name = 0 ∧ breaks b.qualifiedName = 0

end CompiledBlock

namespace CompiledClass

/-- How many lines a class asks for. -/
def lineCount (c : CompiledClass) : Nat :=
  5 + ((CompiledBlock.bodiesOfAll c.methods).map CompiledBlock.lineCount).sum

/-- How many newlines the literals in the lines of a class have: those of the heading, which has every literal,
and those of the instructions. -/
def literalBreaks (c : CompiledClass) : Nat :=
  (c.literals.toList.map breaks).sum
    + ((CompiledBlock.bodiesOfAll c.methods).map (CompiledBlock.literalBreaks c.literals)).sum

end CompiledClass

theorem breaks_textOfLines (lines : List String) :
    breaks (textOfLines lines) = lines.length + (lines.map breaks).sum := by
  induction lines with
  | nil => rfl
  | cons line lines ih =>
    have hcons : textOfLines (line :: lines) = line ++ "\n" ++ textOfLines lines := String.join_cons
    have hnewline : breaks "\n" = 1 := rfl
    rw [hcons, breaks_append, breaks_append, ih, hnewline, List.length_cons, List.map_cons, List.sum_cons]
    omega

theorem breaks_atLevel (depth : Nat) (line : String) : breaks (atLevel depth line) = breaks line :=
  breaks_append_of_eq_zero (breaks_ofList (newline_notMem_replicate (by decide) _)) line

theorem map_breaks_atLevel (depth : Nat) (lines : List String) :
    (lines.map (atLevel depth)).map breaks = lines.map breaks := by
  rw [List.map_map]
  exact List.map_congr_left fun line _ => breaks_atLevel depth line

section Instructions

variable (literals : Array String)

theorem breaks_literalText (index : UInt16) :
    breaks (literalText literals index) = literals[index.toNat]?.elim 0 breaks := by
  have hquote : breaks "'" = 0 := rfl
  rw [literalText]
  split
  · next s hs => rw [hs, breaks_append, breaks_append, hquote, Nat.zero_add, Nat.add_zero, Option.elim_some]
  · next hs =>
    rw [hs, Option.elim_none]
    exact (breaks_append_of_eq_zero rfl _).trans (breaks_natRepr _)

theorem length_instructionLines (depth offset : Nat) (code : List Instruction) :
    (instructionLines literals depth offset code).length = code.length := by
  induction code generalizing offset with
  | nil => rfl
  | cons i code ih => rw [instructionLines, List.length_cons, List.length_cons, ih]

theorem map_breaks_instructionLines (depth offset : Nat) (code : List Instruction) :
    (instructionLines literals depth offset code).map breaks = code.map (Instruction.literalBreaks literals) := by
  have hcolon : breaks ":  " = 0 := rfl
  induction code generalizing offset with
  | nil => rfl
  | cons i code ih =>
    have hi : breaks (i.textWith (literalText literals)) = i.literalBreaks literals := by
      rw [breaks_textWith, Instruction.literalBreaks]
      cases i.literal? with
      | none => rfl
      | some index => exact breaks_literalText literals index
    rw [instructionLines, List.map_cons, List.map_cons, ih, breaks_atLevel, breaks_append, breaks_append,
      breaks_offsetText, hcolon, hi, Nat.zero_add]

end Instructions

theorem CompiledBlock.sum_breaks_frameLines (b : CompiledBlock) (h : b.OneLine) :
    (b.frameLines.map breaks).sum = 0 := by
  have hname : breaks ("name: " ++ (if b.classSide then "static " else "") ++ b.name) = 0 := by
    refine (breaks_append_of_eq_zero ?_ b.name).trans h.1
    split <;> rfl
  have hqualifiedName : breaks ("qualifiedName: " ++ b.qualifiedName) = 0 :=
    (breaks_append_of_eq_zero rfl _).trans h.2
  have hcount (label : String) (hlabel : breaks label = 0) (n : Nat) : breaks (label ++ toString n) = 0 :=
    (breaks_append_of_eq_zero hlabel _).trans (breaks_natRepr n)
  rw [frameLines, List.map_cons, List.map_cons, List.map_cons, List.map_singleton, hname, hqualifiedName,
    hcount _ rfl, hcount _ rfl]
  rfl

theorem CompiledBlock.instructions_of_encode {b : CompiledBlock} {code : List Instruction}
    (h : encode code = b.code) : b.instructions = code := by
  rw [instructions, ← h, decode_encode]

namespace Listed

variable {literals : Array String} {depth : Nat} {bs : List CompiledBlock} {lines : List String}

theorem length_eq (h : Listed literals depth bs lines) :
    lines.length = ((CompiledBlock.bodiesOfAll bs).map CompiledBlock.lineCount).sum := by
  induction h with
  | nil => rw [CompiledBlock.bodiesOfAll]; rfl
  | @cons depth b bs code inner rest encoded _ _ ihb ihbs =>
    have hcode := CompiledBlock.instructions_of_encode encoded
    have hframe : b.frameLines.length = 4 := rfl
    have hblocks : b.blocksLine.length = if b.blocks.isEmpty then 0 else 1 := apply_ite List.length _ _ _
    rw [CompiledBlock.sum_bodiesOfAll_cons, ← ihb, ← ihbs, CompiledBlock.lineCount, hcode, ← hblocks]
    simp only [List.length_append, List.length_map, length_instructionLines, hframe]

theorem sum_breaks (h : Listed literals depth bs lines)
    (hnames : ∀ b ∈ CompiledBlock.bodiesOfAll bs, b.OneLine) :
    (lines.map breaks).sum = ((CompiledBlock.bodiesOfAll bs).map (CompiledBlock.literalBreaks literals)).sum := by
  induction h with
  | nil => rw [CompiledBlock.bodiesOfAll]; rfl
  | @cons depth b bs code inner rest encoded _ _ ihb ihbs =>
    rw [CompiledBlock.bodiesOfAll_cons, List.forall_mem_append, List.forall_mem_cons] at hnames
    obtain ⟨⟨hb, hblocks⟩, hbs⟩ := hnames
    have hcode := CompiledBlock.instructions_of_encode encoded
    have hframe := b.sum_breaks_frameLines hb
    have hline : (b.blocksLine.map breaks).sum = 0 := by
      rw [CompiledBlock.blocksLine]
      split <;> rfl
    rw [CompiledBlock.sum_bodiesOfAll_cons, ← ihb hblocks, ← ihbs hbs, CompiledBlock.literalBreaks, hcode]
    simp only [List.map_append, List.sum_append, map_breaks_atLevel, map_breaks_instructionLines, hframe, hline,
      Nat.zero_add, Nat.add_zero]

end Listed

/-! ## Compiled classes -/

/-- What a compiled class has when its listing only breaks lines through literals: names on one line, and code
that can be decoded to the end. -/
structure CompiledClass.IsPlain (c : CompiledClass) : Prop where
  name : breaks c.name = 0
  superclass : ∀ s ∈ c.superclass, breaks s = 0
  fields : ∀ s ∈ c.fields, breaks s = 0
  bodies : ∀ b ∈ CompiledBlock.bodiesOfAll c.methods, b.OneLine ∧ (decode b.code).failure? = none

namespace CompiledClass

variable {c : CompiledClass}

theorem IsPlain.sum_breaks_headLines (h : c.IsPlain) :
    (c.headLines.map breaks).sum = (c.literals.toList.map breaks).sum := by
  have hcomma : breaks "," = 0 := rfl
  have hquote : breaks "'" = 0 := rfl
  have hlabels : breaks "name: " = 0 ∧ breaks "superClass: " = 0 ∧ breaks "fields: " = 0
      ∧ breaks "literals: " = 0 ∧ breaks "methods:" = 0 := ⟨rfl, rfl, rfl, rfl, rfl⟩
  have hfields : breaks (String.intercalate "," c.fields) = 0 := by
    rw [breaks_intercalate hcomma]
    exact List.sum_eq_zero (List.forall_mem_map.mpr h.fields)
  have hliterals : breaks (String.intercalate "," (c.literals.toList.map fun s => "'" ++ s ++ "'")) =
      (c.literals.toList.map breaks).sum := by
    rw [breaks_intercalate hcomma, List.map_map]
    congr 2
    funext s
    exact (breaks_append _ _).trans (breaks_append_of_eq_zero hquote s)
  rw [headLines]
  simp only [List.map_cons, List.map_nil, List.sum_cons, List.sum_nil, breaks_append, h.name, hfields, hliterals,
    hlabels, Nat.zero_add, Nat.add_zero]
  cases hparent : c.superclass with
  | none => exact Nat.zero_add _
  | some parent =>
    have hbreaks : breaks (if parent = "Object" then "" else parent) = 0 := by
      split
      · rfl
      · exact h.superclass parent hparent
    exact (congrArg (· + _) hbreaks).trans (Nat.zero_add _)

/-- The literals add lines exactly if one of them has a newline. -/
theorem literalBreaks_eq_zero_iff : c.literalBreaks = 0 ↔ ∀ s ∈ c.literals.toList, '\n' ∉ s.toList := by
  have hliterals : (c.literals.toList.map breaks).sum = 0 ↔ ∀ s ∈ c.literals.toList, '\n' ∉ s.toList := by
    rw [List.sum_eq_zero_iff, List.forall_mem_map]
    exact forall₂_congr fun s _ => List.count_eq_zero
  rw [literalBreaks, Nat.add_eq_zero_iff, hliterals, and_iff_left_iff_imp]
  -- an instruction only names literals of the class
  intro hnone
  refine List.sum_eq_zero (List.forall_mem_map.mpr fun b _ => ?_)
  refine List.sum_eq_zero (List.forall_mem_map.mpr fun i _ => ?_)
  rw [Instruction.literalBreaks]
  cases hs : i.literal?.bind fun index => c.literals[index.toNat]? with
  | none => rfl
  | some s =>
    obtain ⟨index, -, hs⟩ := Option.bind_eq_some_iff.mp hs
    exact List.count_eq_zero.mpr (hnone s (Array.mem_toList_iff.mpr (Array.mem_of_getElem? hs)))

end CompiledClass

/-- A text of lines falls into these lines, and an empty rest, if there is no newline in them. -/
theorem splitOn_textOfLines {lines : List String} (h : ∀ line ∈ lines, breaks line = 0) :
    (textOfLines lines).toList.splitOn '\n' = lines.map String.toList ++ [[]] := by
  have htext : (textOfLines lines).toList = ['\n'].intercalate (lines.map String.toList ++ [[]]) := by
    clear h
    induction lines with
    | nil => rfl
    | cons line lines ih =>
      have hcons : textOfLines (line :: lines) = line ++ "\n" ++ textOfLines lines := String.join_cons
      rw [hcons, String.toList_append, String.toList_append, ih, List.map_cons, List.cons_append,
        List.intercalate_cons_of_ne_nil (by simp)]
      rfl
  rw [htext, List.splitOn_intercalate '\n' ?_ (by simp)]
  rw [List.forall_mem_append, List.forall_mem_map, List.forall_mem_singleton]
  exact ⟨fun line hline => List.count_eq_zero.mp (h line hline), List.not_mem_nil⟩

/-- What is compiled from a definition with names on one line has names on one line, and can be decoded. -/
theorem MethodDef.oneLine_of_symbolic? {d : MethodDef} {file : Option String} {layers : List (List String)}
    {owner : String} {literals : Array String} {m : CompiledBlock}
    (h : m.symbolic? literals = some (d.translate file layers owner))
    (hproper : ∀ n ∈ Expr.nodesOfAll d.body.statements, n.IsProper) (howner : breaks owner = 0)
    (hselector : breaks d.selector.name = 0) :
    ∀ b ∈ m.bodies, b.OneLine ∧ (decode b.code).failure? = none := by
  have hreads := readsAs_of_symbolic? h
  have hname : breaks m.name = 0 := by
    rw [name_of_symbolic? h]
    exact hselector
  have hblock (i : Nat) : breaks (m.name ++ "-block" ++ toString i) = 0 := by
    have hi : breaks (toString i) = 0 := breaks_natRepr i
    rw [breaks_append, breaks_append, hname, hi]
    rfl
  have hblocks : ∀ b ∈ m.blocks, b.blocks = [] ∧ b.OneLine ∧ (decode b.code).failure? = none := by
    intro b hb
    obtain ⟨i, hi⟩ := List.mem_iff_getElem?.mp hb
    obtain ⟨l, hl, hread⟩ := exists_literal_of_getElem? h hi
    have hcompiled := isCompiled_of_symbolic? h hproper hl hread
    have hflat := (readsAs_of_symbolic? hread).blocks
    refine ⟨List.forall₂_nil_right_iff.mp hflat, ⟨?_, ?_⟩, hcompiled.decoded⟩
    · rw [hcompiled.name_eq]
      exact hblock i
    · rw [hcompiled.qualifiedName_eq, breaks_intercalate rfl, List.map_append, List.map_map, List.sum_append]
      have hpath := List.sum_eq_zero (List.forall_mem_map.mpr fun j (_ : j ∈ l.path ++ [i]) => hblock j)
      have houter : ([owner, m.name].map breaks).sum = 0 := by simp [howner, hname]
      exact Nat.add_eq_zero_iff.mpr ⟨houter, hpath⟩
  have hinner : CompiledBlock.bodiesOfAll m.blocks = m.blocks :=
    CompiledBlock.bodiesOfAll_of_flat fun b hb => (hblocks b hb).1
  rw [CompiledBlock.bodies_eq, hinner, List.forall_mem_cons]
  refine ⟨⟨⟨hname, ?_⟩, hreads.decoded⟩, fun b hb => (hblocks b hb).2⟩
  have hqualifiedName : m.qualifiedName = String.intercalate ">>" [owner, d.selector.name] := by
    rw [(CompiledBlock.frame_of_symbolic? h).1, translate]
    cases d.body <;> rfl
  rw [hqualifiedName, breaks_intercalate rfl]
  simp [howner, hselector]

/-- What is compiled from a text has names on one line and code that can be decoded. -/
theorem isPlain_of_compileSource {source : String} {options : CompileOptions} {classes : List CompiledClass}
    (h : (compileSource source options).result = .ok classes) : ∀ c ∈ classes, c.IsPlain := by
  obtain ⟨u, hsource, -, -, hsymbolic⟩ := exists_unit_of_ok h
  have hunshared := SourceUnit.isUnshared_of_built (built_of_ofSource hsource)
  intro c hc
  obtain ⟨sym, hsym, hclass⟩ := exists_mem_of_forall₂ (mapM_eq_some_iff.mp hsymbolic) hc
  obtain ⟨d, hd, rfl⟩ := List.mem_map.mp hsym
  have hline := SourceUnit.oneLine_of_ofSource hsource d hd
  have hheader := (classReadsAs_of_symbolic? hclass).header_eq
  have hname : c.name = d.name.name := congrArg ClassHeader.name hheader
  have hsuperclass : c.superclass = d.superclass.map (·.name) := congrArg ClassHeader.superclass hheader
  have hfields : c.fields = d.fields.map (·.name) := congrArg ClassHeader.fields hheader
  refine ⟨?_, ?_, ?_, ?_⟩
  · rw [hname]
    exact hline.name
  · intro s hs
    rw [hsuperclass] at hs
    obtain ⟨x, hx, rfl⟩ := Option.mem_map.mp hs
    exact hline.superclass x hx
  · rw [hfields]
    exact List.forall_mem_map.mpr hline.fields
  · rw [CompiledBlock.bodiesOfAll_eq_flatMap]
    intro b hb
    obtain ⟨m, hm, hb⟩ := List.mem_flatMap.mp hb
    obtain ⟨sym, hsym, hmethod⟩ := exists_mem_of_forall₂ (methods_of_symbolic? hclass) hm
    obtain ⟨e, he, rfl⟩ := List.mem_map.mp hsym
    exact MethodDef.oneLine_of_symbolic? hmethod (hunshared.isProper_of_mem hd he) hline.name
      (hline.selectors e he) b hb

section Success

variable {source : String} {options : CompileOptions} {classes : List CompiledClass}

/-- Listings are made of lines, which only literals can break. The listing of every class that is compiled from
a source text is a heading of five lines and the lines of its methods and their blocks: four for each of these,
one for each instruction, with its offset, and one more if blocks follow, all at their levels. The listing has
a newline for each of these lines, and those of the literals that are written in them. So it falls into just
these lines if there is no newline in a literal, and has too many newlines otherwise. -/
theorem listing_of_compileSource (h : (compileSource source options).result = .ok classes) :
    ∀ c ∈ classes, ∃ lines, Listed c.literals 1 c.methods lines ∧
      c.listing = textOfLines (c.headLines ++ lines) ∧ c.headLines.length = 5 ∧
      (c.headLines ++ lines).length = c.lineCount ∧ breaks c.listing = c.lineCount + c.literalBreaks ∧
      (breaks c.listing = c.lineCount ↔ ∀ s ∈ c.literals.toList, '\n' ∉ s.toList) ∧
      ((∀ s ∈ c.literals.toList, '\n' ∉ s.toList) →
        c.listing.toList.splitOn '\n' = (c.headLines ++ lines).map String.toList ++ [[]]) := by
  intro c hc
  have hplain := isPlain_of_compileSource h c hc
  obtain ⟨lines, hlisted, htext⟩ := @exists_listed c.literals c.methods (fun b hb => (hplain.bodies b hb).2) 1
  have hlisting : c.listing = textOfLines (c.headLines ++ lines) := by
    have hhead : c.headLines.map (atLevel 0) = c.headLines := List.map_id'' (fun line => String.empty_append) _
    rw [CompiledClass.listing, htext, join_map_indented, hhead, textOfLines_append]
  have hlength : (c.headLines ++ lines).length = c.lineCount := by
    rw [List.length_append, hlisted.length_eq]
    rfl
  have hsum : ((c.headLines ++ lines).map breaks).sum = c.literalBreaks := by
    rw [List.map_append, List.sum_append, hplain.sum_breaks_headLines,
      hlisted.sum_breaks fun b hb => (hplain.bodies b hb).1]
    rfl
  have hbreaks : breaks c.listing = c.lineCount + c.literalBreaks := by
    rw [hlisting, breaks_textOfLines, hlength, hsum]
  refine ⟨lines, hlisted, hlisting, rfl, hlength, hbreaks, ?_, fun hnone => ?_⟩
  · rw [hbreaks, Nat.add_eq_left, CompiledClass.literalBreaks_eq_zero_iff]
  · rw [hlisting]
    rw [← CompiledClass.literalBreaks_eq_zero_iff, ← hsum, List.sum_eq_zero_iff, List.forall_mem_map] at hnone
    exact splitOn_textOfLines hnone

/-- Methods of both sides with blocks in blocks, and a main program with a literal on two lines, with positions
marked. -/
theorem listing_of_compileSource_nested_blocks : ∃ classes,
    (compileSource ("Object subclass: #A [ | x | m: k [ x := [:i | [i foo: k]]. ^'it''s' ] p <primitive: #p> "
        ++ "class new [ ^super new ] ] (A new m: 'a\nb') bar: $a") { debugInfo := true }).result = .ok classes ∧
      classes.map (fun c => (c.lineCount, c.literalBreaks)) = [(50, 0), (18, 2)] ∧
      ∀ c ∈ classes, ∃ lines, Listed c.literals 1 c.methods lines ∧
        c.listing = textOfLines (c.headLines ++ lines) ∧ c.headLines.length = 5 ∧
        (c.headLines ++ lines).length = c.lineCount ∧ breaks c.listing = c.lineCount + c.literalBreaks ∧
        (breaks c.listing = c.lineCount ↔ ∀ s ∈ c.literals.toList, '\n' ∉ s.toList) ∧
        ((∀ s ∈ c.literals.toList, '\n' ∉ s.toList) →
          c.listing.toList.splitOn '\n' = (c.headLines ++ lines).map String.toList ++ [[]]) :=
  exists_ok_of_map (by decide +kernel) fun _ h => listing_of_compileSource h

end Success

/-- A string on two lines breaks the heading and the line of the instruction that pushes it, so there are two
newlines too many. -/
theorem listing_literal_newline : (compileSource "'a\nb'" {}).result.toOption.map
    (List.map fun c => (breaks c.listing, c.lineCount)) = some [(14, 12)] := by
  decide +kernel

end Smalltalk
