import TimingExplorer.Document.Encode
import TimingExplorer.Json.Reader
import TimingExplorer.Proofs.Json.Numerals

/-!
Reading back what is written. The scanner finds the tokens of a value in its characters, and the
reader puts the value together from its tokens. Both are inductions on the value; what carries the
first one is that a mark ends a word or a numeral before it.
-/

namespace TimingExplorer.Json

open Document Text

section

variable {σ α : Type} {f : σ → α → Option σ} {s s' : σ}

theorem foldlM_cons_of_some {a : α} {as : List α} (first : f s a = some s') :
    (a :: as).foldlM f s = as.foldlM f s' := by
  simp [first]

theorem foldlM_append_of_some {as bs : List α} (first : as.foldlM f s = some s') :
    (as ++ bs).foldlM f s = bs.foldlM f s' := by
  simp [first]

end

/-- The text of this double denotes it, whoever reads it: it is a numeral that rounds to it. -/
def PrintsExactly (printReal : Double → String) (x : Double) : Prop :=
  ∃ n, Numeral.ofChars? (printReal x).toList = some n ∧ n.Denotes x

/-- The reader gives this double back from its text. An exact text is not enough for that: the
reader rounds more than once, so that it does not give back all finite doubles. What is printed as
0.013000000000000001 it reads as 0.013. -/
def ReadsBack (printReal : Double → String) (x : Double) : Prop :=
  Numeral.read? (printReal x).toList = some (.real x)

/-- Values that have a notation, given how doubles are printed: whole numbers are of 64 bits, and
the reader gives back each double from its text. -/
inductive Writable (printReal : Double → String) : Value → Prop
  | null : Writable printReal .null
  | bool (b : Bool) : Writable printReal (.bool b)
  | integer {n : Int} (low : -0x8000000000000000 ≤ n) (high : n < 0x10000000000000000) :
      Writable printReal (.integer n)
  | real {x : Double} (given : ReadsBack printReal x) : Writable printReal (.real x)
  | string (text : String) : Writable printReal (.string text)
  | array {items : List Value} (each : ∀ v ∈ items, Writable printReal v) :
      Writable printReal (.array items)
  | object {fields : List (String × Value)} (each : ∀ field ∈ fields, Writable printReal field.2) :
      Writable printReal (.object fields)

section

variable {α : Type} {encode : α → Value} {printReal : Double → String}

theorem writable_list {items : List α} (each : ∀ a ∈ items, Writable printReal (encode a)) :
    Writable printReal (Encode.list encode items) := by
  refine .array fun v member => ?_
  obtain ⟨a, listed, rfl⟩ := List.mem_map.mp member
  exact each a listed

theorem writable_nullable {a? : Option α} (each : ∀ a ∈ a?, Writable printReal (encode a)) :
    Writable printReal (Encode.nullable encode a?) := by
  cases a? with
  | none => exact .null
  | some a => exact each a rfl

theorem writable_real {x : Double} (given : ReadsBack printReal x) :
    Writable printReal (Encode.real x) := by
  unfold Encode.real
  split
  · exact .real given
  · exact .null

end

/- As in the characters, an item or a field comes with the comma before it. -/
mutual

/-- The tokens of a written value. -/
def tokens : Value → List Token
  | .string text => [.string (some text)]
  | .array items => .openArray :: (itemTokens items).tail ++ [.closeArray]
  | .object fields => .openObject :: (fieldTokens fields).tail ++ [.closeObject]
  | v => [.scalar v]

def itemTokens : List Value → List Token
  | [] => []
  | v :: rest => .comma :: tokens v ++ itemTokens rest

def fieldTokens : List (String × Value) → List Token
  | [] => []
  | (name, v) :: rest => .comma :: .string (some name) :: .colon :: tokens v ++ fieldTokens rest

end

/-! Scanning. -/

namespace Token

/-- These characters, outside words, numerals and strings, are these tokens. -/
def Scans (cs : List Char) (ts : List Token) : Prop :=
  ∀ seen, ∃ s, cs.foldlM Scanner.step { mode := .between, tokens := seen } = some s ∧
    s.flush = some { mode := .between, tokens := ts.reverse ++ seen }

/-- These characters, also right after a word or a numeral, are these tokens. -/
def Continues (cs : List Char) (ts : List Token) : Prop :=
  ∀ s seen, s.flush = some { mode := .between, tokens := seen } →
    ∃ s', cs.foldlM Scanner.step s = some s' ∧
      s'.flush = some { mode := .between, tokens := ts.reverse ++ seen }

variable {cs ds : List Char} {ts us : List Token}

theorem Continues.scans (continues : Continues cs ts) : Scans cs ts := fun seen =>
  continues _ seen rfl

theorem Continues.nil : Continues [] [] := fun s _ flushed => ⟨s, rfl, flushed⟩

theorem Scans.append (first : Scans cs ts) (second : Continues ds us) :
    Scans (cs ++ ds) (ts ++ us) := by
  intro seen
  obtain ⟨s, scanned, flushed⟩ := first seen
  obtain ⟨s', scanned', flushed'⟩ := second s _ flushed
  exact ⟨s', (foldlM_append_of_some scanned).trans scanned', by simpa using flushed'⟩

theorem Continues.append (first : Continues cs ts) (second : Continues ds us) :
    Continues (cs ++ ds) (ts ++ us) := by
  intro s seen flushed
  obtain ⟨s', scanned, flushed'⟩ := first s seen flushed
  obtain ⟨s'', scanned', flushed''⟩ := second s' _ flushed'
  exact ⟨s'', (foldlM_append_of_some scanned).trans scanned', by simpa using flushed''⟩

/-- A character that no word and no numeral can hold ends them. -/
theorem step_of_flush {s b : Scanner} {c : Char} (flushed : s.flush = some b)
    (noLetter : c.isLower = false) (noSign : isNumeralSign c = false) :
    s.step c = b.start c := by
  obtain ⟨mode, seen⟩ := s
  cases mode with
  | between =>
    cases flushed
    rfl
  | word letters => simp [Scanner.step, noLetter, flushed]
  | numeral signs => simp [Scanner.step, noSign, flushed]
  | text t => cases flushed

/-- A character that is a token by itself. -/
structure Marks (c : Char) (t : Token) : Prop where
  noLetter : c.isLower = false
  noSign : isNumeralSign c = false
  starts : ∀ s : Scanner, s.start c = some (s.emit t)

theorem marks_openObject : Marks '\x7b' .openObject := ⟨rfl, rfl, fun _ => rfl⟩

theorem marks_closeObject : Marks '\x7d' .closeObject := ⟨rfl, rfl, fun _ => rfl⟩

theorem marks_openArray : Marks '[' .openArray := ⟨rfl, rfl, fun _ => rfl⟩

theorem marks_closeArray : Marks ']' .closeArray := ⟨rfl, rfl, fun _ => rfl⟩

theorem marks_comma : Marks ',' .comma := ⟨rfl, rfl, fun _ => rfl⟩

theorem marks_colon : Marks ':' .colon := ⟨rfl, rfl, fun _ => rfl⟩

theorem Marks.before {c : Char} {t : Token} (marks : Marks c t) (scans : Scans cs ts) :
    Continues (c :: cs) (t :: ts) := by
  intro s seen flushed
  obtain ⟨s', scanned, flushed'⟩ := scans (t :: seen)
  have step : s.step c = some { mode := .between, tokens := t :: seen } := by
    rw [step_of_flush flushed marks.noLetter marks.noSign, marks.starts]
    rfl
  exact ⟨s', (foldlM_cons_of_some step).trans scanned, by simpa using flushed'⟩

theorem Scans.nil : Scans [] [] := Continues.nil.scans

theorem Scans.enclosed {openChar closeChar : Char} {openToken closeToken : Token}
    (opens : Marks openChar openToken) (closes : Marks closeChar closeToken)
    (scans : Scans cs ts) :
    Scans (openChar :: cs ++ [closeChar]) (openToken :: ts ++ [closeToken]) :=
  (opens.before scans).scans.append (closes.before .nil)

/-! Strings. -/

theorem hexDigit?_digitChar : ∀ d < 16, hexDigit? (Nat.digitChar d) = some d := by decide

/-- A code unit that is not half of a pair is its character. -/
theorem Text.pushUnit_eq (t : Text) {unit : Nat} (single : unit < 0xD800) :
    t.pushUnit unit = t.push (Char.ofNat unit) := by
  have notSecond : ¬ (0xDC00 ≤ unit ∧ unit ≤ 0xDFFF) := by omega
  have notFirst : ¬ (0xD800 ≤ unit ∧ unit ≤ 0xDBFF) := by omega
  rw [pushUnit, if_neg notSecond, if_neg notFirst]

/-- A character in a string, escaped or not, is that character. -/
theorem scan_escaped (before : List Token) (seen : List Char) (c : Char) :
    (escaped c).foldlM Scanner.step { mode := .text { chars := seen }, tokens := before } =
      some { mode := .text { chars := c :: seen }, tokens := before } := by
  unfold escaped
  split
  any_goals rfl
  next quote backslash _ _ _ _ _ =>
  split
  · next control =>
    have high := hexDigit?_digitChar (c.toNat / 16) (by omega)
    have low := hexDigit?_digitChar (c.toNat % 16) (by omega)
    have zero : hexDigit? '0' = some 0 := rfl
    have whole : 16 * (c.toNat / 16) + c.toNat % 16 = c.toNat := by omega
    have single : c.toNat < 0xD800 := by omega
    simp [Scanner.step, Scanner.stepText, high, low, zero, whole, Text.pushUnit_eq _ single,
      Text.push, Char.ofNat_toNat]
  · next plain =>
    have quote' : c ≠ '"' := quote
    have backslash' : c ≠ '\\' := backslash
    simp [Scanner.step, Scanner.stepText, quote', backslash', plain, Text.push]

theorem scan_flatMap_escaped (before : List Token) (cs seen : List Char) :
    (cs.flatMap escaped).foldlM Scanner.step { mode := .text { chars := seen }, tokens := before } =
      some { mode := .text { chars := cs.reverse ++ seen }, tokens := before } := by
  induction cs generalizing seen with
  | nil => rfl
  | cons c cs ih =>
    rw [List.flatMap_cons, foldlM_append_of_some (scan_escaped before seen c), ih,
      List.reverse_cons, List.append_assoc]
    rfl

theorem continues_quote (text : String) : Continues (quote text) [.string (some text)] := by
  intro s seen flushed
  refine ⟨{ mode := .between, tokens := .string (some text) :: seen }, ?_, rfl⟩
  have opens : s.step '"' = some { mode := .text {}, tokens := seen } := by
    rw [step_of_flush flushed rfl rfl]
    rfl
  have finished : Text.finish { chars := text.toList.reverse } = some text := by
    simp [Text.finish]
  have body := scan_flatMap_escaped seen text.toList []
  rw [List.append_nil] at body
  rw [quote, List.cons_append, foldlM_cons_of_some opens, foldlM_append_of_some body]
  simp [Scanner.step, Scanner.stepText, Scanner.emit, finished]

/-! Numerals and words. -/

theorem start_of_sign (s : Scanner) {c : Char} (sign : c.isDigit = true ∨ c = '-') :
    s.start c = some { s with mode := .numeral [c] } := by
  rcases sign with digit | rfl
  · have noSpace : isSpace c = false := by
      rcases h : isSpace c with _ | _
      · rfl
      · simp only [isSpace, Bool.or_eq_true, decide_eq_true_eq] at h
        rcases h with ((rfl | rfl) | rfl) | rfl <;> cases digit
    have noLetter : c.isLower = false := by
      have bounds := Char.isDigit_iff_toNat.mp digit
      have below : ¬ 'a'.val ≤ c.val := by
        intro letter
        have : 'a'.toNat ≤ '9'.toNat := (UInt32.le_iff_toNat_le.mp letter).trans bounds.2
        exact absurd this (by decide)
      change (decide ('a'.val ≤ c.val) && decide (c.val ≤ 'z'.val)) = false
      rw [decide_eq_false below, Bool.false_and]
    unfold Scanner.start
    split
    any_goals cases digit
    simp [noSpace, noLetter, digit]
  · rfl

theorem scan_signs (before : List Token) {cs : List Char}
    (signs : ∀ c ∈ cs, isNumeralSign c = true) (seen : List Char) :
    cs.foldlM Scanner.step { mode := .numeral seen, tokens := before } =
      some { mode := .numeral (cs.reverse ++ seen), tokens := before } := by
  induction cs generalizing seen with
  | nil => rfl
  | cons c cs ih =>
    obtain ⟨sign, signs⟩ := List.forall_mem_cons.mp signs
    have step : Scanner.step { mode := .numeral seen, tokens := before } c =
        some { mode := .numeral (c :: seen), tokens := before } := by
      simp [Scanner.step, sign]
    rw [foldlM_cons_of_some step, ih signs, List.reverse_cons, List.append_assoc]
    rfl

theorem scans_numeral {cs : List Char} {v : Value} (numeral : Numeral.read? cs = some v) :
    Scans cs [.scalar v] := by
  intro seen
  obtain ⟨n, parsed, rfl⟩ := Option.map_eq_some_iff.mp numeral
  obtain ⟨⟨c, rest, rfl, sign⟩, signs⟩ := Numeral.signs_of_ofChars? parsed
  refine ⟨{ mode := .numeral (rest.reverse ++ [c]), tokens := seen }, ?_, ?_⟩
  · have rest : ∀ d ∈ rest, isNumeralSign d = true := fun d member =>
      signs d (List.mem_cons_of_mem c member)
    have begins : Scanner.step { mode := .between, tokens := seen } c =
        some { mode := .numeral [c], tokens := seen } := start_of_sign _ sign
    rw [foldlM_cons_of_some begins, scan_signs seen rest]
  · simp [Scanner.flush, Scanner.emit, parsed]

theorem scans_null : Scans ['n', 'u', 'l', 'l'] [.scalar .null] := fun _ => ⟨_, rfl, rfl⟩

theorem scans_bool (printReal : Double → String) (b : Bool) :
    Scans (chars printReal (.bool b)) [.scalar (.bool b)] := by
  cases b <;> exact fun _ => ⟨_, rfl, rfl⟩

/-! Values. -/

variable {printReal : Double → String}

theorem continues_itemChars {items : List Value}
    (each : ∀ v ∈ items, Scans (chars printReal v) (tokens v)) :
    Continues (itemChars printReal items) (itemTokens items) := by
  induction items with
  | nil => exact .nil
  | cons v rest ih =>
    obtain ⟨first, others⟩ := List.forall_mem_cons.mp each
    exact (marks_comma.before first).append (ih others)

theorem scans_tail_itemChars {items : List Value}
    (each : ∀ v ∈ items, Scans (chars printReal v) (tokens v)) :
    Scans (itemChars printReal items).tail (itemTokens items).tail := by
  cases items with
  | nil => exact .nil
  | cons v rest =>
    obtain ⟨first, others⟩ := List.forall_mem_cons.mp each
    exact first.append (continues_itemChars others)

theorem scans_field {name : String} {v : Value} (scans : Scans (chars printReal v) (tokens v)) :
    Scans (quote name ++ ':' :: chars printReal v) (.string (some name) :: .colon :: tokens v) :=
  (continues_quote name).scans.append (marks_colon.before scans)

theorem continues_fieldChars {fields : List (String × Value)}
    (each : ∀ field ∈ fields, Scans (chars printReal field.2) (tokens field.2)) :
    Continues (fieldChars printReal fields) (fieldTokens fields) := by
  induction fields with
  | nil => exact .nil
  | cons field rest ih =>
    obtain ⟨first, others⟩ := List.forall_mem_cons.mp each
    exact (marks_comma.before (scans_field first)).append (ih others)

theorem scans_tail_fieldChars {fields : List (String × Value)}
    (each : ∀ field ∈ fields, Scans (chars printReal field.2) (tokens field.2)) :
    Scans (fieldChars printReal fields).tail (fieldTokens fields).tail := by
  cases fields with
  | nil => exact .nil
  | cons field rest =>
    obtain ⟨first, others⟩ := List.forall_mem_cons.mp each
    exact (scans_field first).append (continues_fieldChars others)

theorem scans_chars {v : Value} (writable : Writable printReal v) :
    Scans (chars printReal v) (tokens v) := by
  induction writable with
  | null => exact scans_null
  | bool b => exact scans_bool printReal b
  | integer low high => exact scans_numeral (Numeral.read?_wholeNumber low high)
  | real given => exact scans_numeral given
  | string text => exact (continues_quote text).scans
  | array _ ih => exact (scans_tail_itemChars ih).enclosed marks_openArray marks_closeArray
  | object _ ih => exact (scans_tail_fieldChars ih).enclosed marks_openObject marks_closeObject

/-- The tokens of what is written. -/
theorem scan?_render {v : Value} (writable : Writable printReal v) :
    scan? (render printReal v) = some (tokens v) := by
  obtain ⟨s, scanned, flushed⟩ := scans_chars writable []
  rw [scan?, render, String.toList_ofList, scanned]
  simp [flushed]

end Token

/-! Putting together. -/

namespace Reader

/-- A value may come next. -/
def Awaits (expects : Expects) : Prop := expects = .value ∨ expects = .valueOrClose

/-- Wherever a value may come next, these tokens are this one. -/
def Reads (ts : List Token) (v : Value) : Prop :=
  ∀ stack expects, Awaits expects →
    ts.foldlM step { stack, expects } = some (put stack v)

variable {stack : List Open}

theorem step_of_awaits {expects : Expects} {t : Token} (awaits : Awaits expects)
    (noArray : t ≠ .closeArray) (noObject : t ≠ .closeObject) :
    step { stack, expects } t = beginValue? { stack, expects } t := by
  rcases awaits with rfl | rfl
  · rfl
  · have open' : close? { stack, expects := .valueOrClose } t = none := by
      unfold close?
      split
      · exact absurd rfl noArray
      · exact absurd rfl noObject
      · rfl
    simp [step, open']

theorem reads_scalar (v : Value) : Reads [.scalar v] v := by
  intro stack expects awaits
  exact foldlM_cons_of_some (step_of_awaits awaits (by simp) (by simp))

theorem reads_string (text : String) : Reads [.string (some text)] (.string text) := by
  intro stack expects awaits
  exact foldlM_cons_of_some (step_of_awaits awaits (by simp) (by simp))

theorem read_itemTokens {items : List Value} (each : ∀ v ∈ items, Reads (tokens v) v)
    (seen : List Value) :
    (itemTokens items).foldlM step { stack := .array seen :: stack, expects := .commaOrClose } =
      some { stack := .array (items.reverse ++ seen) :: stack, expects := .commaOrClose } := by
  induction items generalizing seen with
  | nil => rfl
  | cons v rest ih =>
    obtain ⟨first, others⟩ := List.forall_mem_cons.mp each
    have comma : step { stack := .array seen :: stack, expects := .commaOrClose } .comma =
        some { stack := .array seen :: stack, expects := .value } := rfl
    rw [itemTokens, List.cons_append, foldlM_cons_of_some comma,
      foldlM_append_of_some (first _ _ (.inl rfl)), List.reverse_cons, List.append_assoc]
    exact ih others (v :: seen)

theorem reads_array {items : List Value} (each : ∀ v ∈ items, Reads (tokens v) v) :
    Reads (tokens (.array items)) (.array items) := by
  intro stack expects awaits
  have opens : step { stack, expects } .openArray =
      some { stack := .array [] :: stack, expects := .valueOrClose } :=
    step_of_awaits awaits (by simp) (by simp)
  rw [tokens, List.cons_append, foldlM_cons_of_some opens]
  cases items with
  | nil => rfl
  | cons v rest =>
    obtain ⟨first, others⟩ := List.forall_mem_cons.mp each
    have inside : (itemTokens (v :: rest)).tail = tokens v ++ itemTokens rest := by
      rw [itemTokens]
      rfl
    have putFirst : put (.array [] :: stack) v =
        { stack := .array [v] :: stack, expects := .commaOrClose } := rfl
    rw [inside, List.append_assoc, foldlM_append_of_some (first _ _ (.inr rfl)), putFirst,
      foldlM_append_of_some (read_itemTokens others [v])]
    simp [step, close?]

/-- The name and the colon of a field, and its value, put it among those read before it. -/
theorem read_field {name : String} {v : Value} (reads : Reads (tokens v) v)
    {expects : Expects} (awaits : expects = .name ∨ expects = .nameOrClose)
    (seen : List (String × Value)) (rest : List Token) :
    (.string (some name) :: .colon :: tokens v ++ rest).foldlM step
        { stack := .object seen true none :: stack, expects } =
      rest.foldlM step
        { stack := .object ((name, v) :: seen) true none :: stack, expects := .commaOrClose } := by
  have named : step { stack := .object seen true none :: stack, expects } (.string (some name)) =
      some { stack := .object seen true (some name) :: stack, expects := .colon } := by
    rcases awaits with rfl | rfl <;> rfl
  have colon : step { stack := .object seen true (some name) :: stack, expects := .colon } .colon =
      some { stack := .object seen true (some name) :: stack, expects := .value } := rfl
  rw [List.cons_append, List.cons_append, foldlM_cons_of_some named, foldlM_cons_of_some colon,
    foldlM_append_of_some (reads _ _ (.inl rfl))]
  rfl

theorem read_fieldTokens {fields : List (String × Value)}
    (each : ∀ field ∈ fields, Reads (tokens field.2) field.2) (seen : List (String × Value)) :
    (fieldTokens fields).foldlM step
        { stack := .object seen true none :: stack, expects := .commaOrClose } =
      some {
        stack := .object (fields.reverse ++ seen) true none :: stack
        expects := .commaOrClose } := by
  induction fields generalizing seen with
  | nil => rfl
  | cons field rest ih =>
    obtain ⟨first, others⟩ := List.forall_mem_cons.mp each
    have comma :
        step { stack := .object seen true none :: stack, expects := .commaOrClose } .comma =
        some { stack := .object seen true none :: stack, expects := .name } := rfl
    rw [fieldTokens, List.cons_append, List.cons_append, List.cons_append,
      foldlM_cons_of_some comma]
    refine (read_field first (.inl rfl) seen _).trans ?_
    rw [List.reverse_cons, List.append_assoc]
    exact ih others (field :: seen)

theorem reads_object {fields : List (String × Value)}
    (each : ∀ field ∈ fields, Reads (tokens field.2) field.2) :
    Reads (tokens (.object fields)) (.object fields) := by
  intro stack expects awaits
  have opens : step { stack, expects } .openObject =
      some { stack := .object [] true none :: stack, expects := .nameOrClose } :=
    step_of_awaits awaits (by simp) (by simp)
  rw [tokens, List.cons_append, foldlM_cons_of_some opens]
  cases fields with
  | nil => rfl
  | cons field rest =>
    obtain ⟨first, others⟩ := List.forall_mem_cons.mp each
    have inside : (fieldTokens (field :: rest)).tail =
        .string (some field.1) :: .colon :: tokens field.2 ++ fieldTokens rest := by
      rw [fieldTokens]
      rfl
    rw [inside, List.append_assoc, read_field first (.inr rfl),
      foldlM_append_of_some (read_fieldTokens others [field])]
    simp [step, close?]

theorem reads_tokens {printReal : Double → String} {v : Value} (writable : Writable printReal v) :
    Reads (tokens v) v := by
  induction writable with
  | null => exact reads_scalar .null
  | bool b => exact reads_scalar (.bool b)
  | integer => exact reads_scalar _
  | real => exact reads_scalar _
  | string text => exact reads_string text
  | array _ ih => exact reads_array ih
  | object _ ih => exact reads_object ih

end Reader

/-- What is written is read back. -/
theorem read?_render {printReal : Double → String} {v : Value} (writable : Writable printReal v) :
    read? (render printReal v) = some v := by
  have read := Reader.reads_tokens writable [] .value (.inl rfl)
  rw [read?, Token.scan?_render writable, Option.bind_eq_bind, Option.bind_some, read]
  rfl

example : render (fun _ => "0.5") (.array [.null, .integer (-12), .real 0.5, .string "a\n"]) =
    "[null,-12,0.5,\"a\\n\"]" := by decide

end TimingExplorer.Json
