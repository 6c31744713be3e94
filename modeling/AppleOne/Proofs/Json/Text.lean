import AppleOne.Json.Printer
import AppleOne.Json.Reader
import Mathlib.Data.Option.Basic
import Mathlib.Tactic.Common

/-!
# Reading text that was written

The text of a document is read as the document again, unless it holds doubles, integers of
more than 64 bits or brackets nested deeper than the reader allows. The proof follows the
document: wherever a value may stand in a text, the reader that takes the text of the value is
about to hand the value to the innermost container. Only the end of a number is not seen
before the next character, so that a reader may owe its builder a token.

## Main definitions

* `Json.Readable`: documents whose text is read as they are.
* `Json.Builder.Expects`: what waits for a value.
* `Json.Reader.Reaches`: what the builder of a reader comes to when the next token begins.

## Main results

* `Json.toList_renderTo`: the text of a value is appended to what was written before.
* `Json.reads_int`, `Json.reads_string`, `Json.reads_array`, `Json.reads_object`: values.
* `Json.read?_render`, `Json.parse?_render`: whole texts.
-/

namespace AppleOne.Json

/-! ## Texts -/

/-- The text of further items. -/
def itemsText (items : List Json) : List Char :=
  items.flatMap fun item => ',' :: item.render.toList

/-- The text of a member. -/
def memberText (member : String × Json) : List Char :=
  (quote member.1).toList ++ ':' :: member.2.render.toList

/-- The text of further members. -/
def membersText (members : List (String × Json)) : List Char :=
  members.flatMap fun member => ',' :: memberText member

mutual

/-- The text of a value is appended to what was written before. -/
theorem toList_renderTo (out : String) (value : Json) :
    (renderTo out value).toList = out.toList ++ (renderTo "" value).toList := by
  cases value with
  | array items =>
    cases items with
    | nil => simp [renderTo]
    | cons item rest =>
      simp [renderTo, toList_renderItems, toList_renderTo (out.push '['),
        toList_renderTo "["]
  | object members =>
    cases members with
    | nil => simp [renderTo]
    | cons member rest =>
      obtain ⟨key, value⟩ := member
      simp [renderTo, toList_renderMembers, toList_renderTo ((out.push '\x7b' ++ _).push ':'),
        toList_renderTo (("\x7b" ++ _).push ':')]
  | _ => simp [renderTo]

theorem toList_renderItems (out : String) (items : List Json) :
    (renderItems out items).toList = out.toList ++ itemsText items := by
  cases items with
  | nil => simp [renderItems, itemsText]
  | cons item rest =>
    simp [renderItems, toList_renderItems _ rest, toList_renderTo (out.push ','), itemsText, render]

theorem toList_renderMembers (out : String) (members : List (String × Json)) :
    (renderMembers out members).toList = out.toList ++ membersText members := by
  cases members with
  | nil => simp [renderMembers, membersText]
  | cons member rest =>
    obtain ⟨key, value⟩ := member
    simp [renderMembers, toList_renderMembers _ rest,
      toList_renderTo ((out.push ',' ++ _).push ':'), membersText, memberText, render]

end

theorem toList_render_array (item : Json) (rest : List Json) :
    (Json.array (item :: rest)).render.toList =
      '[' :: (item.render.toList ++ (itemsText rest ++ [']'])) := by
  simp [render, renderTo, toList_renderItems, toList_renderTo "["]

theorem toList_render_object (member : String × Json) (rest : List (String × Json)) :
    (Json.object (member :: rest)).render.toList =
      '\x7b' :: (memberText member ++ (membersText rest ++ ['\x7d'])) := by
  simp [render, renderTo, memberText, toList_renderMembers,
    toList_renderTo (("\x7b" ++ _).push ':')]

/-! ## Integers -/

namespace Literal

/-- The digits of a number, as a literal holds them. -/
def digitsOf (n : Nat) : List Nat := (Nat.toDigits 10 n).map fun c => c.toNat - '0'.toNat

/-- The literal of a whole number. -/
def ofNat (negative : Bool) (n : Nat) : Literal := ⟨negative, digitsOf n, [], none⟩

theorem isDigit_of_mem {n : Nat} {c : Char} (h : c ∈ Nat.toDigits 10 n) : c.isDigit = true :=
  Nat.isDigit_of_mem_toDigits (by decide) (by decide) h

/-- The digits of a positive number do not begin with zero. -/
theorem head_digitsOf {n : Nat} (h : 0 < n) :
    ∃ first rest, digitsOf n = first :: rest ∧ first ≠ 0 := by
  -- without its last digit a number is a smaller one with the same first digit
  induction n using Nat.strongRecOn with
  | ind n ih =>
    unfold digitsOf at ih ⊢
    rw [Nat.toDigits_eq_if (by decide)]
    split_ifs with hlt
    · refine ⟨n, [], ?_, Nat.ne_of_gt h⟩
      simp [Nat.toNat_digitChar_of_lt_ten hlt]
    · obtain ⟨first, rest, hdigits, hfirst⟩ := ih (n / 10) (by omega) (by omega)
      exact ⟨first, _, by rw [List.map_append, hdigits, List.cons_append], hfirst⟩

theorem validWhole_digitsOf (n : Nat) : validWhole (digitsOf n) = true := by
  rcases Nat.eq_zero_or_pos n with rfl | hpos
  · rfl
  · obtain ⟨first, rest, hdigits, hfirst⟩ := head_digitsOf hpos
    rw [hdigits]
    cases rest with
    | nil => rfl
    | cons second rest => simpa [validWhole] using hfirst

theorem takeDigits_of_isDigit {chars : List Char} (h : ∀ c ∈ chars, c.isDigit = true) :
    takeDigits chars = (chars.map fun c => c.toNat - '0'.toNat, []) := by
  induction chars with
  | nil => rfl
  | cons c rest ih =>
    have hrest := ih fun other hother => h other (List.mem_cons_of_mem _ hother)
    simp [takeDigits, digit?, h c List.mem_cons_self, hrest]

/-- The digits of a number are split as its literal, with a minus sign or without. -/
theorem parse?_toDigits (n : Nat) :
    parse? (Nat.toDigits 10 n) = some (ofNat false n) ∧
      parse? ('-' :: Nat.toDigits 10 n) = some (ofNat true n) := by
  have htake : takeDigits (Nat.toDigits 10 n) = (digitsOf n, []) :=
    takeDigits_of_isDigit fun _ => isDigit_of_mem
  have hsign : ∀ rest, Nat.toDigits 10 n = '-' :: rest → False := fun rest heq =>
    absurd (isDigit_of_mem (heq ▸ List.mem_cons_self : '-' ∈ Nat.toDigits 10 n)) (by decide)
  constructor
  · simp [parse?, htake, validWhole_digitsOf, takeFraction, endExponent, ofNat]
  · simp [parse?, htake, validWhole_digitsOf, takeFraction, endExponent, ofNat]

/-- The value of a literal without fraction and exponent is its integer, if that fits. -/
theorem value_ofNat (n : Nat) :
    (n ≤ maxSignificand → (ofNat false n).value = .int n) ∧
      (0 < n → n ≤ 0x8000000000000000 → (ofNat true n).value = .int (-n)) := by
  have hvalue : (digitsOf n).foldl (fun value d => value * 10 + d) 0 = n := by
    refine Eq.trans ?_ (Nat.ofDigitChars_ten_toDigits (n := n))
    simp only [digitsOf, List.foldl_map, Nat.ofDigitChars_eq_foldl, Nat.mul_comm]
  constructor
  · intro hfits
    simp [value, ofNat, hvalue, hfits]
  · intro hpos hfits
    simp [value, ofNat, hvalue, hpos, hfits]

end Literal

/-! ## Tokens -/

/-- A scanner owes tokens if it gives them out at the end of the text, or in front of a
character that is a token by itself. -/
structure Scanner.Owes (scanner : Scanner) (tokens : List Token) : Prop where
  finish : scanner.finish = some tokens
  step : ∀ {c token}, start c = some ([token], between) →
    scanner.step c = some (tokens ++ [token], between)

namespace Scanner

theorem owes_between : Owes between [] := ⟨rfl, id⟩

theorem start_of_isDigit {c : Char} (h : c.isDigit = true) :
    start c = some ([], inNumber [c]) := by
  have hall : ∀ n < 10, start (Nat.digitChar n) = some ([], inNumber [Nat.digitChar n]) := by
    decide
  obtain ⟨hlow, hhigh⟩ := Char.isDigit_iff_toNat.mp h
  simp only [Char.reduceToNat] at hlow hhigh
  have hc : Nat.digitChar (c.toNat - 48) = c := by
    apply Char.toNat_inj.mp
    rw [Nat.toNat_digitChar_of_lt_ten (by omega)]
    omega
  exact hc ▸ hall (c.toNat - 48) (by omega)

/-- A character that is a token by itself is no part of a number or a word. -/
theorem not_continues {c : Char} {token : Token} (h : start c = some ([token], between)) :
    isNumberChar c = false ∧ c.isLower = false := by
  unfold start at h
  split at h
  · decide
  · decide
  · decide
  · decide
  · decide
  · decide
  · cases h
  · split_ifs at h <;> cases h

theorem owes_inNumber {chars : List Char} {token : Token} (h : numberToken? chars = some token) :
    Owes (inNumber chars) [token] where
  finish := by simp [finish, h]
  step hstart := by simp [step, startAfter, h, hstart, (not_continues hstart).1]

theorem owes_inWord (letters : List Char) {token : Token} (h : wordToken? letters = some token) :
    Owes (inWord letters) [token] where
  finish := by simp [finish, h]
  step hstart := by simp [step, startAfter, h, hstart, (not_continues hstart).2]

end Scanner

theorem Builder.run_append (builder : Builder) (first second : List Token) :
    builder.run (first ++ second) = (builder.run first).bind (·.run second) := by
  induction first generalizing builder with
  | nil => rfl
  | cons token rest ih =>
    simp only [List.cons_append, run, ih]
    cases builder.step token <;> rfl

namespace Reader

theorem run_append (reader : Reader) (first second : List Char) :
    reader.run (first ++ second) = (reader.run first).bind (·.run second) := by
  induction first generalizing reader with
  | nil => rfl
  | cons c rest ih =>
    simp only [List.cons_append, run]
    cases reader.step c with
    | none => rfl
    | some next => exact ih next

/-- A reader is at the end of a token after which the builder is in some state. -/
def Reaches (reader : Reader) (builder : Builder) : Prop :=
  ∃ tokens, reader.scanner.Owes tokens ∧ reader.builder.run tokens = some builder

theorem reaches_between (builder : Builder) : Reaches ⟨.between, builder⟩ builder :=
  ⟨[], Scanner.owes_between, rfl⟩

variable {reader : Reader} {builder after : Builder} {value : Json}

/-- What is owed comes before a character that is a token by itself. -/
theorem Reaches.run_cons (h : reader.Reaches builder) (c : Char) {token : Token}
    (hstart : Scanner.start c = some ([token], .between)) (hstep : builder.step token = some after)
    (rest : List Char) : reader.run (c :: rest) = Reader.run ⟨.between, after⟩ rest := by
  obtain ⟨tokens, howes, hrun⟩ := h
  have hbuilder : reader.builder.run (tokens ++ [token]) = some after := by
    simp [Builder.run_append, hrun, Builder.run, hstep]
  simp [run, step, howes.step hstart, hbuilder]

theorem Reaches.finish (h : reader.Reaches (.finished value)) : reader.finish = some value := by
  obtain ⟨tokens, howes, hrun⟩ := h
  simp [Reader.finish, howes.finish, hrun]

/-! ## Strings -/

/-- A base-sixteen digit is read as its number. -/
theorem hexDigit?_unitDigit : ∀ n < 16, Scanner.hexDigit? (unitDigit n) = some n := by
  decide

/-- An escaped character is read as the character. -/
theorem run_escapeChar (builder : Builder) (held : List Char) (c : Char) :
    Reader.run ⟨.inString { chars := held }, builder⟩ (escapeChar c) =
      some ⟨.inString { chars := c :: held }, builder⟩ := by
  unfold escapeChar
  split
  · rfl
  · rfl
  · rfl
  · rfl
  · rfl
  · rfl
  · rfl
  · next hquote hbackslash _ _ _ _ _ =>
    -- a control character without a letter of its own has four digits of base sixteen
    split_ifs with hcontrol
    · have hlt : c.toNat < 32 := hcontrol
      have hhigh := hexDigit?_unitDigit (c.toNat / 16) (by omega)
      have hlow := hexDigit?_unitDigit (c.toNat % 16) (by omega)
      have hvalue : c.toNat / 16 * 16 + c.toNat % 16 = c.toNat := by omega
      have hzero : Scanner.hexDigit? '0' = some 0 := rfl
      have hpush : StringBody.pushUnit { chars := held } c.toNat = { chars := c :: held } := by
        simp [StringBody.pushUnit, StringBody.push, StringBody.settle,
          show ¬ 55296 ≤ c.toNat by omega, show ¬ 56320 ≤ c.toNat by omega]
      simp [run, step, Scanner.step, Builder.run, hhigh, hlow, hvalue, hzero, hpush]
    · have hstep : Scanner.step (.inString { chars := held }) c =
          some ([], .inString { chars := c :: held }) := by
        simp only [Scanner.step, if_neg hquote, if_neg hbackslash, if_neg hcontrol]
        rfl
      simp [run, step, hstep, Builder.run]

/-- A string is read from its escaped characters. -/
theorem run_escaped (builder : Builder) (held chars : List Char) :
    Reader.run ⟨.inString { chars := held }, builder⟩ (chars.flatMap escapeChar) =
      some ⟨.inString { chars := chars.reverse ++ held }, builder⟩ := by
  induction chars generalizing held with
  | nil => rfl
  | cons c rest ih =>
    rw [List.flatMap_cons, run_append, run_escapeChar, Option.bind_some, ih]
    simp

/-- A string in quotes is read as one token. -/
theorem run_quote {text : String} (hstep : builder.step (.string (some text)) = some after)
    (rest : List Char) :
    Reader.run ⟨.between, builder⟩ ((quote text).toList ++ rest) =
      Reader.run ⟨.between, after⟩ rest := by
  have hopen : Reader.step ⟨.between, builder⟩ '"' = some ⟨.inString {}, builder⟩ := rfl
  have hclose : Reader.step ⟨.inString { chars := text.toList.reverse }, builder⟩ '"' =
      some ⟨.between, after⟩ := by
    simp [step, Scanner.step, StringBody.finish, StringBody.settle, Builder.run, hstep]
  simp [quote, run, hopen, run_append, run_escaped, hclose]

end Reader

/-! ## Values -/

/-- The documents whose text is read as what they are, with brackets up to some depth. -/
inductive Readable : Nat → Json → Prop
  | null {depth : Nat} : Readable depth .null
  | bool {depth : Nat} (value : Bool) : Readable depth (.bool value)
  | int {depth : Nat} {value : Int} (hlow : -0x8000000000000000 ≤ value)
      (hhigh : value < UInt64.size) : Readable depth (.int value)
  | string {depth : Nat} (text : String) : Readable depth (.string text)
  | array {depth : Nat} {items : List Json} (h : ∀ item ∈ items, Readable depth item) :
      Readable (depth + 1) (.array items)
  | object {depth : Nat} {members : List (String × Json)}
      (h : ∀ member ∈ members, Readable depth member.2) : Readable (depth + 1) (.object members)

/-- What waits for a value, with containers that are open around it. -/
def Builder.Expects (builder : Builder) (stack : List Frame) : Prop :=
  ∀ token, token ≠ .closeArray → builder.step token = startValue stack token

theorem Builder.expects_needValue (stack : List Frame) : (needValue stack).Expects stack :=
  fun _ _ => rfl

theorem Builder.expects_needFirstItem (stack : List Frame) :
    (needFirstItem stack).Expects (.array [] :: stack) := by
  intro token htoken
  cases token with
  | closeArray => exact absurd rfl htoken
  | _ => rfl

/-- The text of a value is read wherever a value is expected, unless that is too deep. -/
def Reads (depth : Nat) (value : Json) : Prop :=
  ∀ (builder : Builder) (stack : List Frame), builder.Expects stack →
    stack.length + depth ≤ maxDepth →
    ∃ reader, Reader.run ⟨.between, builder⟩ value.render.toList = some reader ∧
      reader.Reaches (.deliver value stack)

variable {depth : Nat}

theorem Builder.deliverContainer_of_length {stack : List Frame} (value : Json)
    (h : stack.length < maxDepth) : deliverContainer value stack = deliver value stack := by
  have hdeep : tooDeep stack = false := by
    have hle : stack.length ≤ maxDepth - 1 := Nat.le_sub_one_of_lt h
    simp [tooDeep, List.drop_eq_nil_of_le hle]
  simp [deliverContainer, hdeep]

/-- A value that is one token is read if its text leaves a scanner that owes the token. -/
theorem reads_of_owes {value : Json} {token : Token} {scanner : Scanner}
    (hrun : ∀ builder, Reader.run ⟨.between, builder⟩ value.render.toList =
      some ⟨scanner, builder⟩)
    (howes : scanner.Owes [token]) (hopens : token ≠ .closeArray)
    (hstart : ∀ stack, Builder.startValue stack token = some (.deliver value stack)) :
    Reads depth value := by
  intro builder stack hexpects _
  refine ⟨⟨scanner, builder⟩, hrun builder, [token], howes, ?_⟩
  have hstep : builder.step token = some (.deliver value stack) :=
    (hexpects token hopens).trans (hstart stack)
  simp [Builder.run, hstep]

theorem reads_null : Reads depth .null :=
  reads_of_owes (fun _ => rfl) (Scanner.owes_inWord "null".toList.reverse rfl) nofun
    fun _ => rfl

theorem reads_bool (value : Bool) : Reads depth (.bool value) := by
  cases value with
  | false =>
    exact reads_of_owes (fun _ => rfl)
      (Scanner.owes_inWord "false".toList.reverse rfl) nofun fun _ => rfl
  | true =>
    exact reads_of_owes (fun _ => rfl)
      (Scanner.owes_inWord "true".toList.reverse rfl) nofun fun _ => rfl

/-- A number is read to its last character. -/
theorem run_number (builder : Builder) {first : Char} {rest : List Char}
    (hfirst : first = '-' ∨ first.isDigit = true) (hrest : ∀ c ∈ rest, c.isDigit = true) :
    Reader.run ⟨.between, builder⟩ (first :: rest) =
      some ⟨.inNumber (first :: rest).reverse, builder⟩ := by
  have hloop (held : List Char) : Reader.run ⟨.inNumber held, builder⟩ rest =
      some ⟨.inNumber (rest.reverse ++ held), builder⟩ := by
    induction rest generalizing held with
    | nil => rfl
    | cons c rest ih =>
      have hc : Scanner.isNumberChar c = true := by
        simp [Scanner.isNumberChar, hrest c List.mem_cons_self]
      have hlater := ih fun other hother => hrest other (List.mem_cons_of_mem _ hother)
      simp [Reader.run, Reader.step, Scanner.step, hc, Builder.run, hlater]
  have hstart : Scanner.start first = some ([], .inNumber [first]) :=
    hfirst.elim (fun h => h ▸ rfl) Scanner.start_of_isDigit
  simp [Reader.run, Reader.step, Scanner.step, hstart, Builder.run, hloop]

/-- The text of an integer that fits in 64 bits is a literal of it. -/
theorem exists_literal {value : Int} (hlow : -0x8000000000000000 ≤ value)
    (hhigh : value < UInt64.size) :
    ∃ (negative : Bool) (n : Nat) (first : Char) (rest : List Char),
      (Json.int value).render.toList = first :: rest ∧
        (first = '-' ∨ first.isDigit = true) ∧ (∀ c ∈ rest, c.isDigit = true) ∧
        Literal.parse? (first :: rest) = some (.ofNat negative n) ∧
        (Literal.ofNat negative n).value = .int value := by
  have hrender : (Json.int value).render.toList = value.repr.toList := by
    simp [render, renderTo]
  have hsize : (UInt64.size : Int) = 18446744073709551616 := rfl
  have hmax : Literal.maxSignificand = 18446744073709551615 := rfl
  rw [hrender, Int.repr_eq_if]
  split_ifs with hsign
  · -- the digits of a natural number, of which there is a first one
    obtain ⟨n, rfl⟩ := Int.eq_ofNat_of_zero_le hsign
    rw [Int.toNat_natCast, Nat.toList_repr]
    cases hdigits : Nat.toDigits 10 n with
    | nil => exact absurd hdigits Nat.toDigits_ne_nil
    | cons first rest =>
      have hall : ∀ c ∈ first :: rest, c.isDigit = true := fun c hmem =>
        Literal.isDigit_of_mem (hdigits ▸ hmem)
      exact ⟨false, n, first, rest, rfl, .inr (hall first List.mem_cons_self),
        fun c hmem => hall c (List.mem_cons_of_mem _ hmem),
        hdigits ▸ (Literal.parse?_toDigits n).1, (Literal.value_ofNat n).1 (by omega)⟩
  · -- a minus sign, and the digits of the opposite
    obtain ⟨n, hn⟩ := Int.eq_ofNat_of_zero_le (show 0 ≤ -value by omega)
    obtain rfl : value = -(n : Int) := by omega
    rw [Int.neg_neg, Int.toNat_natCast, String.toList_append, Nat.toList_repr]
    exact ⟨true, n, '-', _, rfl, .inl rfl, fun c hmem => Literal.isDigit_of_mem hmem,
      (Literal.parse?_toDigits n).2, (Literal.value_ofNat n).2 (by omega) (by omega)⟩

theorem reads_int {value : Int} (hlow : -0x8000000000000000 ≤ value)
    (hhigh : value < UInt64.size) : Reads depth (.int value) := by
  obtain ⟨negative, n, first, rest, htext, hfirst, hrest, hparse, hvalue⟩ :=
    exists_literal hlow hhigh
  have htoken : Scanner.numberToken? (first :: rest).reverse =
      some (.number (.ofNat negative n)) := by
    simp [Scanner.numberToken?, hparse]
  refine reads_of_owes (fun builder => ?_) (Scanner.owes_inNumber htoken) nofun fun stack => ?_
  · rw [htext]
    exact run_number builder hfirst hrest
  · simp [Builder.startValue, hvalue]

theorem reads_string (text : String) : Reads depth (.string text) := by
  intro builder stack hexpects hdepth
  have hstep : builder.step (.string (some text)) = some (.deliver (.string text) stack) :=
    hexpects _ nofun
  refine ⟨_, ?_, Reader.reaches_between _⟩
  have hrun := Reader.run_quote hstep []
  simpa [render, renderTo, Reader.run] using hrun

/-! ## Containers -/

section Containers

variable {reader : Reader} {stack : List Frame} {builder : Builder}

/-- The text of a value is read in front of more text. -/
theorem Reads.run_append {value : Json} (h : Reads depth value) (hexpects : builder.Expects stack)
    (hdepth : stack.length + depth ≤ maxDepth) :
    ∃ reader : Reader, reader.Reaches (.deliver value stack) ∧ ∀ rest,
      Reader.run ⟨.between, builder⟩ (value.render.toList ++ rest) = reader.run rest := by
  obtain ⟨reader, hrun, hreaches⟩ := h builder stack hexpects hdepth
  exact ⟨reader, hreaches, fun rest => by rw [Reader.run_append, hrun, Option.bind_some]⟩

/-- After an item the others are read, and then the end of the array. -/
theorem run_itemsText {items held : List Json} (h : ∀ item ∈ items, Reads depth item)
    (hdepth : stack.length + 1 + depth ≤ maxDepth)
    (hreader : reader.Reaches (.afterItem stack held)) :
    reader.run (itemsText items ++ [']']) =
      some ⟨.between, .deliver (.array (held.reverse ++ items)) stack⟩ := by
  -- the items that were read are held with the latest one first
  induction items generalizing reader held with
  | nil =>
    have hclose : (Builder.afterItem stack held).step .closeArray =
        some (.deliver (.array held.reverse) stack) :=
      congrArg some (Builder.deliverContainer_of_length _ (by omega))
    have hrun := hreader.run_cons ']' rfl hclose []
    simpa [itemsText, Reader.run] using hrun
  | cons item rest ih =>
    obtain ⟨next, hnext, hrun⟩ := (h item List.mem_cons_self).run_append
      (Builder.expects_needValue (.array held :: stack)) hdepth
    have hrest := ih (fun other hother => h other (List.mem_cons_of_mem _ hother)) hnext
    have hstep : (Builder.afterItem stack held).step .comma =
        some (Builder.needValue (.array held :: stack)) := rfl
    have hcomma := hreader.run_cons ',' rfl hstep
    simp only [itemsText, List.flatMap_cons, List.cons_append, List.append_assoc] at hrest ⊢
    rw [hcomma, hrun, hrest]
    simp

/-- A key is read, and then the value of the member. -/
theorem run_memberText {member : String × Json} {members : List (String × Json)}
    (h : Reads depth member.2) (hdepth : stack.length + 1 + depth ≤ maxDepth)
    (hkey : builder.step (.string (some member.1)) =
      some (.needColon stack members false (some member.1))) :
    ∃ reader : Reader, reader.Reaches (.afterMember stack (member :: members) false) ∧ ∀ rest,
      Reader.run ⟨.between, builder⟩ (memberText member ++ rest) = reader.run rest := by
  obtain ⟨next, hnext, hrun⟩ := h.run_append
    (Builder.expects_needValue (.object members false (some member.1) :: stack)) hdepth
  refine ⟨next, hnext, fun rest => ?_⟩
  have hstep : (Builder.needColon stack members false (some member.1)).step .colon =
      some (.needValue (.object members false (some member.1) :: stack)) := rfl
  have hcolon := (Reader.reaches_between _).run_cons ':' rfl hstep
  rw [memberText, List.append_assoc, Reader.run_quote hkey, List.cons_append, hcolon, hrun]

/-- After a member the others are read, and then the end of the object. -/
theorem run_membersText {members held : List (String × Json)}
    (h : ∀ member ∈ members, Reads depth member.2) (hdepth : stack.length + 1 + depth ≤ maxDepth)
    (hreader : reader.Reaches (.afterMember stack held false)) :
    reader.run (membersText members ++ ['\x7d']) =
      some ⟨.between, .deliver (.object (held.reverse ++ members)) stack⟩ := by
  -- one member after the other, with those that were read held in reverse
  induction members generalizing reader held with
  | nil =>
    have hclose : (Builder.afterMember stack held false).step .closeObject =
        some (.deliver (.object held.reverse) stack) :=
      congrArg some (Builder.deliverContainer_of_length _ (by omega))
    have hrun := hreader.run_cons '\x7d' rfl hclose []
    simpa [membersText, Reader.run] using hrun
  | cons member rest ih =>
    have hkey : (Builder.needKey stack held false).step (.string (some member.1)) =
        some (.needColon stack held false (some member.1)) := rfl
    obtain ⟨next, hnext, hrun⟩ := run_memberText (h member List.mem_cons_self) hdepth hkey
    have hrest := ih (fun other hother => h other (List.mem_cons_of_mem _ hother)) hnext
    have hstep : (Builder.afterMember stack held false).step .comma =
        some (.needKey stack held false) := rfl
    have hcomma := hreader.run_cons ',' rfl hstep
    simp only [membersText, List.flatMap_cons, List.cons_append, List.append_assoc] at hrest ⊢
    rw [hcomma, hrun, hrest]
    simp

theorem reads_array {items : List Json} (h : ∀ item ∈ items, Reads depth item) :
    Reads (depth + 1) (.array items) := by
  intro builder stack hexpects hdepth
  refine ⟨_, ?_, Reader.reaches_between _⟩
  have hopen : builder.step .openArray = some (.needFirstItem stack) := hexpects _ nofun
  have hbracket := (Reader.reaches_between builder).run_cons '[' rfl hopen
  cases items with
  | nil =>
    have hclose : (Builder.needFirstItem stack).step .closeArray =
        some (.deliver (.array []) stack) :=
      congrArg some (Builder.deliverContainer_of_length _ (by omega))
    exact (hbracket [']']).trans ((Reader.reaches_between _).run_cons ']' rfl hclose [])
  | cons item rest =>
    obtain ⟨next, hnext, hrun⟩ := (h item List.mem_cons_self).run_append
      (Builder.expects_needFirstItem stack) (by simp only [List.length_cons]; omega)
    rw [toList_render_array, hbracket, hrun]
    exact run_itemsText (fun other hother => h other (List.mem_cons_of_mem _ hother))
      (by omega) hnext

theorem reads_object {members : List (String × Json)}
    (h : ∀ member ∈ members, Reads depth member.2) : Reads (depth + 1) (.object members) := by
  intro builder stack hexpects hdepth
  refine ⟨_, ?_, Reader.reaches_between _⟩
  have hopen : builder.step .openObject = some (.needFirstKey stack) := hexpects _ nofun
  have hbrace := (Reader.reaches_between builder).run_cons '\x7b' rfl hopen
  cases members with
  | nil =>
    have hclose : (Builder.needFirstKey stack).step .closeObject =
        some (.deliver (.object []) stack) :=
      congrArg some (Builder.deliverContainer_of_length _ (by omega))
    exact (hbrace ['\x7d']).trans ((Reader.reaches_between _).run_cons '\x7d' rfl hclose [])
  | cons member rest =>
    have hkey : (Builder.needFirstKey stack).step (.string (some member.1)) =
        some (.needColon stack [] false (some member.1)) := rfl
    obtain ⟨next, hnext, hrun⟩ :=
      run_memberText (h member List.mem_cons_self) (by omega) hkey
    rw [toList_render_object, hbrace, hrun]
    exact run_membersText (fun other hother => h other (List.mem_cons_of_mem _ hother))
      (by omega) hnext

end Containers

/-! ## Documents -/

/-- The text of a readable document is read wherever a value is expected. -/
theorem Readable.reads {value : Json} (h : Readable depth value) : Reads depth value := by
  induction h with
  | null => exact reads_null
  | bool value => exact reads_bool value
  | int hlow hhigh => exact reads_int hlow hhigh
  | string text => exact reads_string text
  | array _ ih => exact reads_array ih
  | object _ ih => exact reads_object ih

theorem soundItems_eq_true {items : List Json} (h : ∀ item ∈ items, item.sound = true) :
    soundItems items = true := by
  induction items with
  | nil => rfl
  | cons item rest ih =>
    have hrest := ih fun other hother => h other (List.mem_cons_of_mem _ hother)
    simp [soundItems, h item List.mem_cons_self, hrest]

theorem soundMembers_eq_true {members : List (String × Json)}
    (h : ∀ member ∈ members, member.2.sound = true) : soundMembers members = true := by
  induction members with
  | nil => rfl
  | cons member rest ih =>
    have hrest := ih fun other hother => h other (List.mem_cons_of_mem _ hother)
    simp [soundMembers, h member List.mem_cons_self, hrest]

/-- A readable document has no defect. -/
theorem Readable.sound {value : Json} (h : Readable depth value) : value.sound = true := by
  induction h with
  | array _ ih => exact soundItems_eq_true ih
  | object _ ih => exact soundMembers_eq_true ih
  | _ => rfl

/-- The text of a readable document is read as the document. -/
theorem read?_render {value : Json} (h : Readable maxDepth value) :
    read? value.render = some value := by
  obtain ⟨reader, hrun, hreaches⟩ :=
    h.reads (.needValue []) [] (Builder.expects_needValue []) (Nat.le_of_eq (Nat.zero_add _))
  have hinitial : Reader.initial.run value.render.toList = some reader := hrun
  simp [read?, hinitial, hreaches.finish]

/-- A parser of texts gives back the canonical form of a readable document. -/
theorem parse?_render {value : Json} (h : Readable maxDepth value) :
    parse? value.render = some value.canonical := by
  simp [parse?, read?_render h, h.sound]

end AppleOne.Json
