import SchemaEditor.Json.Printer
import SchemaEditor.Json.Token
import SchemaEditor.Proofs.Text.Numerals
import Mathlib.Tactic.SplitIfs

/-!
# The tokens of a written value

A text in quotes reads back whatever its characters are, and the digits of a number do when nothing
follows that could go on the number. So the characters that are printed for a value lex into the
tokens of the value, in front of any text that lexes and cannot go on a number.
-/

namespace SchemaEditor

namespace Text

theorem Hexadecimal.value?_two_digits {n : Nat} (h : n < 0x20) :
    value? 16 ['0', '0', lowerDigit (n / 16), lowerDigit (n % 16)] = some n := by
  have hall : ∀ k : Fin 0x20,
      value? 16 ['0', '0', lowerDigit (k.val / 16), lowerDigit (k.val % 16)] = some k.val := by
    decide
  exact hall ⟨n, h⟩

end Text

namespace Json

variable {c : Char} {cs rest : List Char} {acc : List TextUnit} {n : Nat} {s : String}

/-! ### Texts in quotes -/

theorem units?_escape (c : Char) (acc : List TextUnit) (cs : List Char) :
    units? acc (escape c ++ cs) = units? (.char c :: acc) cs := by
  unfold escape
  split_ifs with hquote hback hb ht hn hf hr hcontrol
  · subst hquote; rfl
  · subst hback; rfl
  · subst hb; rfl
  · subst ht; rfl
  · subst hn; rfl
  · subst hf; rfl
  · subst hr; rfl
  · have hvalue := Text.Hexadecimal.value?_two_digits hcontrol
    have hrange : ¬ (0xD800 ≤ c.toNat ∧ c.toNat < 0xE000) := by omega
    simp only [List.cons_append, List.nil_append, units?, hvalue, if_neg hrange, Char.ofNat_toNat]
  · rw [List.singleton_append, units?, if_neg hcontrol]
    all_goals simp_all

/-- The units of an escaped text are its characters. -/
theorem units?_escaped (cs : List Char) (acc : List TextUnit) (rest : List Char) :
    units? acc (cs.flatMap escape ++ '"' :: rest) =
      some ((cs.map .char).reverse ++ acc, rest) := by
  induction cs generalizing acc with
  | nil => rfl
  | cons c cs ih =>
    rw [List.flatMap_cons, List.append_assoc, units?_escape, ih]
    simp

theorem spelled?_chars (cs acc : List Char) :
    spelled? acc (cs.map .char) = some (cs.reverse ++ acc) := by
  induction cs generalizing acc with
  | nil => rfl
  | cons c cs ih => simp [spelled?, ih]

theorem text?_escaped (s : String) (rest : List Char) :
    text? (s.toList.flatMap escape ++ '"' :: rest) = some (.str s, rest) := by
  simp [text?, units?_escaped, ← List.map_reverse, spelled?_chars]

theorem quoted_toList (s : String) :
    (quoted s).toList = '"' :: (s.toList.flatMap escape ++ ['"']) := by
  simp [quoted]

theorem token?_quoted (s : String) (rest : List Char) :
    token? ((quoted s).toList ++ rest) = some (.scalar (.str s), rest) := by
  have htext := text?_escaped s rest
  simp [quoted_toList, token?, htext]

/-! ### Numbers -/

/-- Nothing at the beginning of a text can go on a number that stands before it. -/
def Ends (rest : List Char) : Prop :=
  ∀ c ∈ rest.head?, c.isDigit = false ∧ c ≠ '.' ∧ c ≠ 'e' ∧ c ≠ 'E'

theorem Ends.nil : Ends [] := by simp [Ends]

theorem Ends.cons (hc : c.isDigit = false ∧ c ≠ '.' ∧ c ≠ 'e' ∧ c ≠ 'E') : Ends (c :: rest) := by
  rintro _ ⟨⟩
  exact hc

theorem whole?_digits (n : Nat) (h : Ends rest) :
    whole? (Text.Decimal.digits n ++ rest) = some (Text.Decimal.digits n, rest) := by
  have hdigits := Text.Decimal.isDigit_of_mem_digits n
  have hrest : ∀ c ∈ rest.head?, c.isDigit = false := fun c hc => (h c hc).1
  simp only [whole?, Text.takeWhile_isDigit hdigits hrest, Text.dropWhile_isDigit hdigits hrest]
  split
  · next hnil => exact absurd hnil (Text.Decimal.digits_ne_nil n)
  · -- A zero in front of more digits would be refused, but only zero begins with one.
    next hzero =>
    obtain rfl | hn := Nat.eq_zero_or_pos n
    · simp [Text.Decimal.digits] at hzero
    · exact absurd (by rw [hzero]; rfl) (Text.Decimal.head?_digits_ne_zero hn)
  · rfl

theorem fraction?_of_ends (h : Ends rest) : fraction? rest = some ([], rest) := by
  unfold fraction?
  split
  · exact absurd rfl (h '.' rfl).2.1
  · rfl

theorem exponent?_of_ends (h : Ends rest) : exponent? rest = some (0, rest) := by
  cases rest with
  | nil => rfl
  | cons c rest =>
    obtain ⟨-, -, he, hE⟩ := h c rfl
    simp [exponent?, he, hE]

theorem takeDigits_of_lt {significand : Nat} {ds : List Char}
    (h : Text.Decimal.valueOnto significand ds < UInt64.size) :
    takeDigits significand ds = (Text.Decimal.valueOnto significand ds, 0) := by
  induction ds generalizing significand with
  | nil => rfl
  | cons d ds ih =>
    have hle := Text.Decimal.le_valueOnto (significand * 10 + (d.toNat - 48)) ds
    rw [takeDigits, if_pos (Nat.lt_of_le_of_lt hle h)]
    exact ih h

/-- The numbers that fit into 64 bits are small enough to be read. -/
theorem inRange_digits (h : n < UInt64.size) : inRange (Text.Decimal.digits n) [] 0 = true := by
  -- No digit is dropped, so the significand is the number and there is no exponent.
  have hdigits : takeDigits 0 (Text.Decimal.digits n) = (n, 0) := by
    have hvalue : Text.Decimal.valueOnto 0 (Text.Decimal.digits n) = n :=
      Text.Decimal.value_digits n
    rw [takeDigits_of_lt (hvalue.symm ▸ h), hvalue]
  have hone : Text.nearestDouble 1 = 1 := Text.nearestDouble_of_lt (by decide)
  have hsmall : 2 * UInt64.size < Text.infiniteDouble := by decide +kernel
  have hn := Text.nearestDouble_le n
  simp only [inRange, hdigits, takeDigits, isFinite]
  refine decide_eq_true (.inr (.inr ⟨by decide, ?_⟩))
  show Text.nearestDouble n * Text.nearestDouble 1 < _
  rw [hone]
  omega

theorem number?_digits (h : n < UInt64.size) (hrest : Ends rest) :
    number? (Text.Decimal.digits n ++ rest) = some (.nat n, rest) := by
  have hsign : (Text.Decimal.digits n ++ rest).head? ≠ some '-' := by
    obtain ⟨d, ds, hds, hd⟩ := Text.Decimal.exists_cons_digits n
    rw [hds]
    rintro ⟨⟩
    exact absurd hd (by decide)
  have hmagnitude : magnitude? (Text.Decimal.digits n ++ rest) = some (true, rest) := by
    simp [magnitude?, whole?_digits n hrest, fraction?_of_ends hrest, exponent?_of_ends hrest,
      inRange_digits h]
  rw [number?, if_neg hsign, hmagnitude]
  simp [nat, Text.Decimal.ofNat]

/-- A token that begins with a digit is a number. -/
theorem token?_of_isDigit (h : c.isDigit = true) :
    token? (c :: cs) = (number? (c :: cs)).map fun (j, rest) => (.scalar j, rest) := by
  rw [token?]
  all_goals
    rintro _ ⟨⟩
    exact absurd h (by decide)

theorem token?_digits (h : n < UInt64.size) (hrest : Ends rest) :
    token? (Text.Decimal.digits n ++ rest) = some (.scalar (.nat n), rest) := by
  have hnumber := number?_digits h hrest
  obtain ⟨d, ds, hds, hd⟩ := Text.Decimal.exists_cons_digits n
  rw [hds, List.cons_append] at hnumber ⊢
  rw [token?_of_isDigit hd, hnumber]
  rfl

/-! ### Tokens -/

/-- A text of words one after the other that are its tokens. -/
inductive Lexed : List Char → List Token → Prop
  | nil : Lexed [] []
  | cons {c : Char} {word rest : List Char} {t : Token} {ts : List Token}
      (hspace : isSpace c = false) (htoken : token? (c :: word ++ rest) = some (t, rest))
      (hrest : Lexed rest ts) : Lexed (c :: word ++ rest) (t :: ts)

variable {t : Token} {ts : List Token}

theorem Lexed.tokensOnto_eq (h : Lexed cs ts) (acc : List Token) {fuel : Nat}
    (hfuel : cs.length ≤ fuel) : tokensOnto acc fuel cs = some (acc.reverse ++ ts) := by
  induction h generalizing acc fuel with
  | nil => cases fuel <;> simp [tokensOnto]
  | @cons c word rest t ts hspace htoken _ ih =>
    cases fuel with
    | zero => simp at hfuel
    | succ fuel =>
      -- A word has at least one character, so what is left of the fuel lasts for the rest.
      have hfuel' : rest.length ≤ fuel := by
        simp only [List.cons_append, List.length_cons, List.length_append] at hfuel
        omega
      have hdrop : (c :: word ++ rest).dropWhile isSpace = c :: word ++ rest := by
        simp [hspace]
      simp only [tokensOnto, hdrop]
      rw [List.cons_append] at htoken ⊢
      simp only [htoken, ih (t :: acc) hfuel']
      simp

/-- A text has the tokens that its words are. -/
theorem Lexed.tokens?_eq (h : Lexed cs ts) : tokens? cs = some ts :=
  h.tokensOnto_eq [] (Nat.le_refl _)

theorem Lexed.quoted (s : String) (h : Lexed rest ts) :
    Lexed ((quoted s).toList ++ rest) (.scalar (.str s) :: ts) := by
  have htoken := token?_quoted s rest
  rw [quoted_toList] at htoken ⊢
  exact .cons rfl htoken h

mutual

/-- The tokens of a value. -/
def tokens : Json → List Token
  | .arr items => .openBracket :: (itemTokens items ++ [.closeBracket])
  | .obj fields => .openBrace :: (fieldTokens fields ++ [.closeBrace])
  | j => [.scalar j]

/-- The tokens of items with commas between them. -/
def itemTokens : List Json → List Token
  | [] => []
  | [j] => tokens j
  | j :: k :: js => tokens j ++ .comma :: itemTokens (k :: js)

/-- The tokens of fields with commas between them. -/
def fieldTokens : List (String × Json) → List Token
  | [] => []
  | [(k, j)] => .scalar (.str k) :: .colon :: tokens j
  | (k, j) :: f :: fs => .scalar (.str k) :: .colon :: (tokens j ++ .comma :: fieldTokens (f :: fs))

end

/-- A value without a part that denotes nothing, whose numbers are natural and fit into 64 bits, and
which is nested to a depth of at most `d`. -/
inductive Writable : Nat → Json → Prop
  | null {d : Nat} : Writable d .null
  | bool {d : Nat} (b : Bool) : Writable d (.bool b)
  | nat {d n : Nat} (h : n < UInt64.size) : Writable d (.nat n)
  | str {d : Nat} (s : String) : Writable d (.str s)
  | arr {d : Nat} {items : List Json} (h : ∀ j ∈ items, Writable d j) :
      Writable (d + 1) (.arr items)
  | obj {d : Nat} {fields : List (String × Json)} (h : ∀ f ∈ fields, Writable d f.2) :
      Writable (d + 1) (.obj fields)

theorem Writable.noFields {d : Nat} : Writable (d + 1) (.obj []) := .obj nofun

theorem Writable.field {d : Nat} {name : String} {j : Json} {fields : List (String × Json)}
    (hj : Writable d j) (h : Writable (d + 1) (.obj fields)) :
    Writable (d + 1) (.obj ((name, j) :: fields)) := by
  cases h with
  | obj h => exact .obj (List.forall_mem_cons.mpr ⟨hj, h⟩)

/-- Wherever the text of the value stands, it lexes into the tokens of the value. -/
def Lexes (j : Json) : Prop :=
  ∀ rest ts, Ends rest → Lexed rest ts → Lexed (j.print.toList ++ rest) (j.tokens ++ ts)

theorem lexed_items {items : List Json} (hitems : ∀ j ∈ items, Lexes j) (hrest : Ends rest)
    (h : Lexed rest ts) : Lexed ((printItems items).toList ++ rest) (itemTokens items ++ ts) := by
  induction items with
  | nil => simpa [printItems, itemTokens] using h
  | cons j items ih =>
    have hj := hitems j List.mem_cons_self
    cases items with
    | nil => simpa [printItems, itemTokens] using hj rest ts hrest h
    | cons k items =>
      have hmore := ih fun x hx => hitems x (List.mem_cons_of_mem j hx)
      have hcomma : Lexed (',' :: [] ++ _) (.comma :: _) := .cons rfl rfl hmore
      simpa [printItems, itemTokens] using hj _ _ (Ends.cons (by decide)) hcomma

theorem lexed_fields {fields : List (String × Json)} (hfields : ∀ f ∈ fields, Lexes f.2)
    (hrest : Ends rest) (h : Lexed rest ts) :
    Lexed ((printFields fields).toList ++ rest) (fieldTokens fields ++ ts) := by
  induction fields with
  | nil => simpa [printFields, fieldTokens] using h
  | cons f fields ih =>
    obtain ⟨key, j⟩ := f
    have hj := hfields (key, j) List.mem_cons_self
    have hfield {rest ts} (hrest : Ends rest) (h : Lexed rest ts) :
        Lexed ((Json.quoted key).toList ++ (':' :: [] ++ (j.print.toList ++ rest)))
          (.scalar (.str key) :: .colon :: (j.tokens ++ ts)) :=
      .quoted key (.cons rfl rfl (hj rest ts hrest h))
    cases fields with
    | nil => simpa [printFields, fieldTokens] using hfield hrest h
    | cons g fields =>
      have hmore := ih fun x hx => hfields x (List.mem_cons_of_mem _ hx)
      have hcomma : Lexed (',' :: [] ++ _) (.comma :: _) := .cons rfl rfl hmore
      simpa [printFields, fieldTokens] using hfield (Ends.cons (by decide)) hcomma

theorem Writable.lexes {d : Nat} {j : Json} (h : Writable d j) : Lexes j := by
  intro rest ts hrest hlexed
  induction h generalizing rest ts with
  | null => exact .cons rfl rfl hlexed
  | bool b => cases b <;> exact .cons rfl rfl hlexed
  | @nat _ n h =>
    have htoken := token?_digits h hrest
    obtain ⟨c, cs, hcs, hc⟩ := Text.Decimal.exists_cons_digits n
    have hspace : isSpace c = false := by
      rw [isSpace, Bool.eq_false_iff]
      intro hspace
      simp only [Bool.or_eq_true, beq_iff_eq] at hspace
      obtain ((rfl | rfl) | rfl) | rfl := hspace <;> exact absurd hc (by decide)
    have hprint : (Json.nat n).print.toList = c :: cs := by
      rw [Json.nat, print, Text.Decimal.ofNat, String.toList_ofList, hcs]
    rw [hprint]
    rw [hcs] at htoken
    exact .cons hspace htoken hlexed
  | str s => exact .quoted s hlexed
  | arr _ ih =>
    have hclose : Lexed (']' :: [] ++ rest) (.closeBracket :: ts) := .cons rfl rfl hlexed
    have hitems := lexed_items ih (Ends.cons (by decide)) hclose
    have hopen : Lexed ('[' :: [] ++ _) (.openBracket :: _) := .cons rfl rfl hitems
    simpa [print, tokens] using hopen
  | obj _ ih =>
    have hclose : Lexed ('\x7d' :: [] ++ rest) (.closeBrace :: ts) := .cons rfl rfl hlexed
    have hfields := lexed_fields ih (Ends.cons (by decide)) hclose
    have hopen : Lexed ('\x7b' :: [] ++ _) (.openBrace :: _) := .cons rfl rfl hfields
    simpa [print, tokens] using hopen

/-- The text of a value lexes into the tokens of the value. -/
theorem Writable.tokens?_print {d : Nat} {j : Json} (h : Writable d j) :
    tokens? j.print.toList = some j.tokens := by
  have hlexed := h.lexes [] [] .nil .nil
  rw [List.append_nil, List.append_nil] at hlexed
  exact hlexed.tokens?_eq

end Json

end SchemaEditor
