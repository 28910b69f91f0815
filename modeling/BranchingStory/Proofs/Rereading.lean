import BranchingStory.Proofs.Layouts
import BranchingStory.Proofs.Numerals
/-!
# Texts are read back

A tree that is written, with blanks or without, is read back as the same tree, but for its doubles:
each of them comes back as what its numeral is read as. A tree is refused when it is nested too
deep, or when one of its numbers is too large to be read; `Json.readable` says which trees are not.
-/

namespace BranchingStory.Json

/-! ## What comes back -/

mutual

/-- The tree with something in place of every double. -/
def withReals (f : Float → Json) : Json → Json
  | real x => f x
  | array items => array (withRealsItems f items)
  | object fields => object (withRealsFields f fields)
  | other => other

/-- Items with something in place of every double. -/
def withRealsItems (f : Float → Json) : List Json → List Json
  | [] => []
  | item :: rest => item.withReals f :: withRealsItems f rest

/-- Fields with something in place of every double. -/
def withRealsFields (f : Float → Json) : Fields → Fields
  | [] => []
  | (key, value) :: rest => (key, value.withReals f) :: withRealsFields f rest

end

/-- What a double comes back as, if it does. -/
def rereadReal (x : Float) : Json := (reread? x).getD null

/-- What a tree comes back as. -/
def reread (j : Json) : Json := j.withReals rereadReal

mutual

/-- Whether a tree that is written is read, where so many levels of arrays and objects are
allowed. -/
def readable (room : Nat) : Json → Bool
  | real x => (reread? x).isSome
  | array items => 0 < room && readableItems (room - 1) items
  | object fields => 0 < room && readableFields (room - 1) fields
  | _ => true

/-- Whether every item is read. -/
def readableItems (room : Nat) : List Json → Bool
  | [] => true
  | item :: rest => item.readable room && readableItems room rest

/-- Whether every field is read. -/
def readableFields (room : Nat) : Fields → Bool
  | [] => true
  | (_, value) :: rest => value.readable room && readableFields room rest

end

/-- Whether a word is expected. -/
def Outline.isWord : Outline → Bool
  | .word _ => true
  | _ => false

mutual

/-- Whether a tree has the shape that an outline asks for: nothing of it is skipped, where a word is
expected there is a text, and whole numbers are in the range of 64 bits. -/
def Outline.fits (o : Outline) : Json → Bool
  | text _ => !o.isSkipped
  | integer n => !o.isSkipped && !o.isWord && Int64.minValue.toInt ≤ n && n < UInt64.size
  | array items => !o.isSkipped && !o.isWord && o.item.fitsItems items
  | object fields => !o.isSkipped && !o.isWord && o.fitsFields fields
  | _ => !o.isSkipped && !o.isWord

/-- Whether every item has the shape that an outline asks for. -/
def Outline.fitsItems (o : Outline) : List Json → Bool
  | [] => true
  | item :: rest => o.fits item && o.fitsItems rest

/-- Whether every field has the shape that the outline of the object asks for. -/
def Outline.fitsFields (o : Outline) : Fields → Bool
  | [] => true
  | (key, value) :: rest => (o.field key).fits value && o.fitsFields rest

end

/-! ## Strings -/

namespace Quoted

/-- The string after some characters that leave it open. -/
def feed? (text : List Char) (q : Quoted) : Option Quoted :=
  text.foldlM (fun q c => match q.step c with
    | .more q => some q
    | _ => none) q

@[simp] theorem feed?_nil (q : Quoted) : feed? [] q = some q := rfl

theorem feed?_append (a b : List Char) (q : Quoted) :
    feed? (a ++ b) q = (feed? a q).bind (feed? b) := by
  simp only [feed?, List.foldlM_append]
  rfl

theorem feed?_cons_of_more {q q' : Quoted} {c : Char} (h : q.step c = .more q') (rest : List Char) :
    feed? (c :: rest) q = feed? rest q' := by
  simp [feed?, h]

@[simp] theorem append_escape (q : Quoted) (e : Escape) (c : Char) :
    append { q with escape := e } c = q.append c := rfl

/-- A backslash and the mark of a character. -/
theorem feed?_pair {q : Quoted} (hq : q.escape = .plain) {mark c : Char}
    (h : ∀ q, stepBackslash q mark = .more (q.append c)) :
    feed? ['\\', mark] q = some (q.append c) := by
  simp [feed?, step, hq, stepPlain, h]

/-- The code of a control character in four hexadecimal digits. -/
theorem feed?_control {n : Nat} (hn : n < 0x20) (q : Quoted) :
    feed? ['0', '0', Nat.digitChar (n / 16), Nat.digitChar (n % 16)]
      { q with escape := .hex none 0 (some 0) } = some (q.append (Char.ofNat n)) := by
  have hhex : ∀ k < 16, hexValue? (Nat.digitChar k) = some k ∧ (Nat.digitChar k).utf8Size = 1 := by
    decide
  have hzero : hexValue? '0' = some 0 ∧ '0'.utf8Size = 1 := by decide
  obtain ⟨hhigh, hhigh1⟩ := hhex (n / 16) (by omega)
  obtain ⟨hlow, hlow1⟩ := hhex (n % 16) (by omega)
  have hvalue : 16 * (n / 16) + n % 16 = n := Nat.div_add_mod n 16
  have hsurrogate : ¬ (0xdc00 ≤ n) ∧ ¬ (0xd800 ≤ n) := by omega
  simp [feed?, step, stepHex, hzero, hhigh, hhigh1, hlow, hlow1, closeHex, hvalue, hsurrogate]

/-- What is written for a character stands for that character. -/
theorem feed?_escape {q : Quoted} (hq : q.escape = .plain) (c : Char) :
    feed? (Json.escape c) q = some (q.append c) := by
  unfold Json.escape
  iterate 7
    split
    · subst_vars
      exact feed?_pair hq fun q => by simp [stepBackslash]
  split
  · rename_i hcontrol
    have hbackslash : q.step '\\' = .more { q with escape := .backslash } := by
      simp [step, hq, stepPlain]
    have hmark : Quoted.step { q with escape := .backslash } 'u' =
        .more { q with escape := .hex none 0 (some 0) } := by
      simp [step, stepBackslash]
    rw [feed?_cons_of_more hbackslash, feed?_cons_of_more hmark, feed?_control hcontrol,
      Char.ofNat_toNat]
  · rename_i hquote hslash _ _ _ _ _ hcontrol
    simp [feed?, step, hq, stepPlain, hquote, hslash, hcontrol]

/-- The string after all characters of a text. -/
theorem feed?_escapes {q : Quoted} (hq : q.escape = .plain) (s : List Char) :
    feed? (s.flatMap Json.escape) q = some { q with chars := s.reverse ++ q.chars } := by
  induction s generalizing q with
  | nil => simp
  | cons c s ih =>
    rw [List.flatMap_cons, feed?_append, feed?_escape hq, Option.bind_some, ih (by rfl)]
    simp [append, hq]

end Quoted

/-! ## The machine -/

namespace Reader

/-- The machine after some text. -/
def feed (text : List Char) (r : Reader) : Except Misreading Reader := text.foldlM step r

/-- The machine at the place that it has reached after some text. -/
def moved (r : Reader) (text : List Char) : Reader :=
  { r with position := text.foldl Position.advance r.position }

section Moved
variable (r : Reader) (text : List Char)

@[simp] theorem moved_mode : (r.moved text).mode = r.mode := rfl

@[simp] theorem moved_stack : (r.moved text).stack = r.stack := rfl

@[simp] theorem moved_outline : (r.moved text).outline = r.outline := rfl

@[simp] theorem moved_moved (more : List Char) :
    (r.moved text).moved more = r.moved (text ++ more) := by
  simp [moved]

theorem put_moved (v : Json) : (r.moved text).put v = (r.put v).moved text := by
  unfold put
  simp only [moved_stack]
  split <;> rfl

end Moved

@[simp] theorem feed_nil (r : Reader) : feed [] r = .ok r := rfl

theorem feed_append (a b : List Char) (r : Reader) :
    feed (a ++ b) r = (feed a r).bind (feed b) := by
  simp only [feed, List.foldlM_append]
  rfl

theorem feed_cons (c : Char) (rest : List Char) (r : Reader) :
    feed (c :: rest) r = (r.step c).bind (feed rest) := by
  simp only [feed, List.foldlM_cons]
  rfl

theorem feed_cons_ok {r r' : Reader} {c : Char} (h : r.step c = .ok r') (rest : List Char) :
    feed (c :: rest) r = feed rest r' := by
  rw [feed_cons, h]
  rfl

theorem feed_append_ok {r r' : Reader} {a : List Char} (h : feed a r = .ok r') (b : List Char) :
    feed (a ++ b) r = feed b r' := by
  rw [feed_append, h]
  rfl

/-- Whether the machine is between tokens. -/
def BetweenTokens (m : Mode) : Prop :=
  match m with
  | .string _ | .key _ | .number _ | .word _ _ => False
  | _ => True

theorem step_token {r : Reader} {c : Char} (hm : BetweenTokens r.mode) (hc : isSpace c = false) :
    r.step c = (r.moved [c]).stepToken c := by
  obtain ⟨root, position, stack, mode⟩ := r
  cases mode <;> simp_all [BetweenTokens, step, moved]

theorem step_space {r : Reader} {c : Char} (hm : BetweenTokens r.mode) (hc : isSpace c) :
    r.step c = .ok (r.moved [c]) := by
  obtain ⟨root, position, stack, mode⟩ := r
  cases mode <;> simp_all [BetweenTokens, step, moved]

/-- Blanks between tokens are passed over. -/
theorem feed_blanks {r : Reader} (hm : BetweenTokens r.mode) {blanks : List Char}
    (h : ∀ c ∈ blanks, isSpace c) (rest : List Char) :
    feed (blanks ++ rest) r = feed rest (r.moved blanks) := by
  induction blanks generalizing r with
  | nil => rfl
  | cons c more ih =>
    have hstep := step_space hm (h c (by simp))
    have hmore := ih (r := r.moved [c]) hm fun d hd => h d (by simp [hd])
    rw [List.cons_append, feed_cons_ok hstep, hmore, moved_moved]
    rfl

theorem betweenTokens_put (r : Reader) (v : Json) : BetweenTokens (r.put v).mode := by
  unfold put
  split <;> exact trivial

@[simp] theorem put_mode (r : Reader) (m : Mode) (v : Json) :
    put { r with mode := m } v = r.put v := by
  unfold put
  cases r.stack with
  | nil => rfl
  | cons frame rest => cases frame <;> rfl

/-! ### Inside a token -/

/-- Characters that leave a token open lead from one state of the token to another. -/
theorem feed_token {α : Type} (mode : α → Mode) {next? : α → Char → Option α}
    (hstep : ∀ (r : Reader) (a a' : α) (c : Char), next? a c = some a' →
      step { r with mode := mode a } c = .ok { r.moved [c] with mode := mode a' })
    {text : List Char} {a a' : α} (h : text.foldlM next? a = some a') (r : Reader) :
    feed text { r with mode := mode a } = .ok { r.moved text with mode := mode a' } := by
  induction text generalizing r a with
  | nil =>
    obtain rfl : a = a' := by simpa using h
    rfl
  | cons c rest ih =>
    obtain ⟨a₁, h₁, hrest⟩ : ∃ a₁, next? a c = some a₁ ∧ rest.foldlM next? a₁ = some a' := by
      simpa [List.foldlM_cons, Option.bind_eq_some_iff] using h
    rw [feed_cons_ok (hstep r a a₁ c h₁)]
    exact (ih hrest (r.moved [c])).trans (by simp [moved])

theorem feed_string {text : List Char} {q q' : Quoted} (h : q.feed? text = some q') (r : Reader) :
    feed text { r with mode := .string q } = .ok { r.moved text with mode := .string q' } := by
  refine feed_token .string (fun r q q' c hq => ?_) h r
  split at hq
  · rename_i hmore
    obtain rfl := Option.some.inj hq
    simp [step, hmore, go, moved]
  · cases hq

theorem feed_key {text : List Char} {q q' : Quoted} (h : q.feed? text = some q') (r : Reader) :
    feed text { r with mode := .key q } = .ok { r.moved text with mode := .key q' } := by
  refine feed_token .key (fun r q q' c hq => ?_) h r
  split at hq
  · rename_i hmore
    obtain rfl := Option.some.inj hq
    simp [step, hmore, go, moved]
  · cases hq

theorem feed_number {text : List Char} {n n' : Numeral}
    (h : text.foldlM Numeral.push? n = some n') (r : Reader) :
    feed text { r with mode := .number n } = .ok { r.moved text with mode := .number n' } :=
  feed_token .number (fun r n n' c hn => by simp [step, hn, go, moved]) h r

/-! ### Scalars -/

/-- The machine waits for a value. -/
def AwaitsValue (r : Reader) : Prop := r.mode = .value ∨ r.mode = .firstItem

/-- What may follow a number inside an array or an object. -/
def IsDelimiter (c : Char) : Prop := c = ',' ∨ c = ']' ∨ c = '}' ∨ isSpace c

/-- Whether there is a text after the value that shows where it ends. Only numbers need one. -/
def EndsBefore (j : Json) (rest : List Char) : Prop :=
  match j with
  | .integer _ | .real _ => ∃ c tail, rest = c :: tail ∧ IsDelimiter c
  | _ => True

/-- The text is read as one value, or refused if there is none. -/
def Takes (r : Reader) (text : List Char) (value : Option Json) (rest : List Char) : Prop :=
  match value with
  | some v => feed (text ++ rest) r = feed rest ((r.put v).moved text)
  | none => ∃ m, feed (text ++ rest) r = .error m

theorem step_awaitsValue {r : Reader} (h : AwaitsValue r) {c : Char} (hspace : isSpace c = false)
    (hclose : c ≠ ']') : ∃ fault, r.step c = (r.moved [c]).stepValue c fault := by
  have hm : BetweenTokens r.mode := by rcases h with h | h <;> rw [h] <;> exact trivial
  rw [step_token hm hspace]
  unfold stepToken
  rcases h with h | h
  · simp only [moved_mode, h]
    split
    · exact ⟨_, rfl⟩
    · exact ⟨_, rfl⟩
    all_goals simp_all
  · refine ⟨.expectedValue, ?_⟩
    simp [h, hclose]

theorem step_closeString {q : Quoted} (hq : q.escape = .plain) (r : Reader) :
    step { r with mode := .string q } '"' = .ok ((r.put (.text q.toText)).moved ['"']) := by
  rw [← put_moved, ← put_mode _ (.string q)]
  simp [step, Quoted.step, hq, Quoted.stepPlain, moved]

theorem step_closeKey {q : Quoted} (hq : q.escape = .plain) (r : Reader) :
    step { r with mode := .key q } '"' =
      .ok ({ r.moved ['"'] with mode := .key q }.putKey q.toText) := by
  simp [step, Quoted.step, hq, Quoted.stepPlain, moved]

theorem toText_reverse (strict : Bool) (s : String) :
    Quoted.toText { strict, chars := s.toList.reverse ++ [] } = s := by
  simp [Quoted.toText]

/-- A text in quotes is read as that text. -/
theorem takes_text {r : Reader} (h : AwaitsValue r) (s : String) (rest : List Char) :
    Takes r (quoted s) (some (.text s)) rest := by
  obtain ⟨fault, hopen⟩ := step_awaitsValue h (c := '"') (by decide) (by decide)
  have hadmits : r.outline.admits '"' = true := by cases r.outline <;> simp [Outline.admits]
  have hstart : (r.moved ['"']).stepValue '"' fault =
      .ok { r.moved ['"'] with mode := .string { strict := !r.outline.isSkipped } } := by
    simp [stepValue, hadmits, Numeral.start?, go]
  have hchars := feed_string
    (Quoted.feed?_escapes (q := { strict := !r.outline.isSkipped }) rfl s.toList) (r.moved ['"'])
  simp only [Takes, quoted, List.cons_append, List.append_assoc, List.nil_append]
  rw [feed_cons_ok (hopen.trans hstart), feed_append_ok hchars,
    feed_cons_ok (step_closeString rfl _), toText_reverse]
  simp [put_moved]

/-- A word of three letters or more is read as what it stands for. -/
theorem takes_word {r : Reader} (h : AwaitsValue r) {c d : Char} {letters : List Char} {v : Json}
    (hspace : isSpace c = false) (hclose : c ≠ ']')
    (hstart : ∀ (r' : Reader) (fault : Fault), r'.outline = r.outline →
      r'.stepValue c fault = r'.go (.word (d :: letters) v)) (rest : List Char) :
    Takes r (c :: d :: letters) (some v) rest := by
  obtain ⟨fault, hopen⟩ := step_awaitsValue h hspace hclose
  rw [hstart _ _ (moved_outline r [c])] at hopen
  have hword (letters : List Char) (d : Char) (r : Reader) :
      feed (d :: letters ++ rest) { r with mode := .word (d :: letters) v } =
        feed rest ((r.put v).moved (d :: letters)) := by
    induction letters generalizing d r with
    | nil =>
      refine feed_cons_ok ?_ rest
      rw [← put_moved, ← put_mode _ (.word [d] v)]
      simp [step, moved]
    | cons e letters ih =>
      have hstep : step { r with mode := .word (d :: e :: letters) v } d =
          .ok { r.moved [d] with mode := .word (e :: letters) v } := by
        simp [step, moved, go]
      rw [List.cons_append, feed_cons_ok hstep, ih e (r.moved [d])]
      simp [put_moved]
  simp only [Takes]
  rw [List.cons_append, feed_cons_ok hopen]
  exact (hword letters d (r.moved [c])).trans (by simp [put_moved])

theorem admits_of_not_isWord {o : Outline} (h : o.isWord = false) (c : Char) :
    o.admits c = true := by
  cases o <;> simp_all [Outline.isWord, Outline.admits]

theorem takes_bool {r : Reader} (h : AwaitsValue r) (hword : r.outline.isWord = false) (b : Bool)
    (rest : List Char) : Takes r (scalarText (.bool b)) (some (.bool b)) rest := by
  cases b with
  | true =>
    exact takes_word h (by decide) (by decide)
      (fun r' fault ho => by simp [stepValue, ho, admits_of_not_isWord hword, Numeral.start?]) rest
  | false =>
    exact takes_word h (by decide) (by decide)
      (fun r' fault ho => by simp [stepValue, ho, admits_of_not_isWord hword, Numeral.start?]) rest

theorem takes_null {r : Reader} (h : AwaitsValue r) (hword : r.outline.isWord = false)
    (rest : List Char) : Takes r nullText (some .null) rest :=
  takes_word h (by decide) (by decide)
    (fun r' fault ho => by simp [stepValue, ho, admits_of_not_isWord hword, Numeral.start?]) rest

/-! ### Numbers -/

theorem push?_delimiter {n : Numeral} (hn : n.isComplete) {c : Char} (hc : IsDelimiter c) :
    n.push? c = none ∧ n.endsBefore c = true := by
  obtain ⟨hdigit, hother⟩ : c.isDigit = false ∧ c ≠ '.' ∧ c ≠ 'e' ∧ c ≠ 'E' := by
    rcases hc with rfl | rfl | rfl | hspace
    · decide
    · decide
    · decide
    · simp only [isSpace, decide_eq_true_eq] at hspace
      rcases hspace with rfl | rfl | rfl | rfl <;> decide
  unfold Numeral.isComplete at hn
  cases hphase : n.phase <;> simp_all [Numeral.push?, Numeral.endsBefore]

/-- A number ends where something else begins. -/
theorem step_delimiter {n : Numeral} (hn : n.isComplete) {c : Char} (hc : IsDelimiter c)
    (r : Reader) {v : Json} (hv : n.toJson? = some v) :
    step { r with mode := .number n } c = step (r.put v) c := by
  obtain ⟨hpush, hends⟩ := push?_delimiter hn hc
  have hput : (r.put v).step c =
      if isSpace c then .ok ((r.put v).moved [c]) else ((r.put v).moved [c]).stepToken c := by
    split
    · rename_i hspace
      exact step_space (betweenTokens_put r v) hspace
    · rename_i hspace
      exact step_token (betweenTokens_put r v) (Bool.not_eq_true _ ▸ hspace)
  rw [hput, ← put_moved, ← put_mode _ (.number n)]
  simp only [step, hpush, stepAfterNumber, hends, putNumber, moved, hv]
  split <;> simp_all [bind, Except.bind, pure, Except.pure]

/-- A number that is too large is refused where it ends. -/
theorem step_delimiter_error {n : Numeral} (hn : n.isComplete) {c : Char} (hc : IsDelimiter c)
    {r : Reader} (hskip : r.outline.isSkipped = false) (hv : n.toJson? = none) :
    ∃ m, step { r with mode := .number n } c = .error m := by
  obtain ⟨hpush, hends⟩ := push?_delimiter hn hc
  refine ⟨⟨.numberOutOfRange, r.position.advance c⟩, ?_⟩
  have hput : putNumber { r.moved [c] with mode := .number n } n =
      .error ⟨.numberOutOfRange, r.position.advance c⟩ := by
    simp only [putNumber, hv]
    exact if_neg (by simpa [outline, moved] using hskip)
  simp only [step, hpush, stepAfterNumber, hends]
  exact congrArg (· >>= _) hput

/-- A numeral before a delimiter is read as the number it stands for, unless that is too large. -/
theorem takes_numeral {r : Reader} (h : AwaitsValue r) (hskip : r.outline.isSkipped = false)
    (hword : r.outline.isWord = false) {numeral : List Char} {n : Numeral}
    (hn : Numeral.ofText? numeral = some n) (hcomplete : n.isComplete) {rest : List Char}
    (hrest : ∃ c tail, rest = c :: tail ∧ IsDelimiter c) : Takes r numeral n.toJson? rest := by
  obtain ⟨d, tail, rfl, hd⟩ := hrest
  obtain _ | ⟨c, digits⟩ := numeral
  · cases hn
  obtain ⟨n₀, hstart, hdigits⟩ : ∃ n₀, Numeral.start? c = some n₀ ∧
      digits.foldlM Numeral.push? n₀ = some n := by
    simpa [Numeral.ofText?, Option.bind_eq_some_iff] using hn
  have hc : isSpace c = false ∧ c ≠ ']' := by
    constructor
    · by_contra hspace
      simp only [isSpace, Bool.not_eq_false, decide_eq_true_eq] at hspace
      rcases hspace with rfl | rfl | rfl | rfl <;> simp [Numeral.start?] at hstart
    · rintro rfl
      simp [Numeral.start?] at hstart
  obtain ⟨fault, hopen⟩ := step_awaitsValue h hc.1 hc.2
  have hgo : (r.moved [c]).stepValue c fault = .ok { r.moved [c] with mode := .number n₀ } := by
    simp [stepValue, admits_of_not_isWord hword, hstart, go]
  have hfeed : feed (c :: digits) r = .ok { r.moved (c :: digits) with mode := .number n } := by
    rw [feed_cons_ok (hopen.trans hgo), feed_number hdigits]
    simp [moved]
  cases hv : n.toJson? with
  | some v =>
    simp only [Takes]
    rw [feed_append_ok hfeed, feed_cons, feed_cons, step_delimiter hcomplete hd _ hv, put_moved]
  | none =>
    obtain ⟨m, hm⟩ := step_delimiter_error hcomplete hd (r := r.moved (c :: digits)) hskip hv
    exact ⟨m, by rw [feed_append_ok hfeed, feed_cons, hm]; rfl⟩

/-! ### Arrays and objects -/

/-- Inside an array: the machine around it, with the items so far, last first. -/
def inList (r : Reader) (done : List Json) (item : Outline) (mode : Mode) : Reader :=
  { r with stack := .items done item :: r.stack, mode }

/-- Inside an object: the machine around it, with the fields so far, last first, and the key that
was read last. -/
def inObject (r : Reader) (done : Fields) (key : String) (outline : Outline) (mode : Mode) :
    Reader :=
  { r with stack := .fields done key outline :: r.stack, mode }

section Inside
variable (r : Reader) (done : List Json) (item : Outline) (fields : Fields) (key : String)
  (outline : Outline)

theorem inList_put (mode : Mode) (v : Json) :
    (r.inList done item mode).put v = r.inList (v :: done) item .next := rfl

theorem inObject_put (mode : Mode) (v : Json) :
    (r.inObject fields key outline mode).put v =
      r.inObject ((key, v) :: fields) key outline .next := rfl

theorem inList_moved (mode : Mode) (text : List Char) :
    (r.inList done item mode).moved text = (r.moved text).inList done item mode := rfl

theorem inObject_moved (mode : Mode) (text : List Char) :
    (r.inObject fields key outline mode).moved text =
      (r.moved text).inObject fields key outline mode := rfl

theorem step_closeList {mode : Mode} (hmode : mode = .next ∨ mode = .firstItem) :
    (r.inList done item mode).step ']' = .ok ((r.put (.array done.reverse)).moved [']']) := by
  have hclose : ((r.inList done item mode).moved [']']).close =
      (r.put (.array done.reverse)).moved [']'] :=
    (put_mode (r.moved [']']) mode _).trans (put_moved r _ _)
  rcases hmode with rfl | rfl <;>
    exact (step_token (by exact trivial) (by decide)).trans (congrArg Except.ok hclose)

theorem step_closeObject {mode : Mode} (hmode : mode = .next ∨ mode = .firstKey)
    (hword : outline.isWord = false) :
    (r.inObject fields key outline mode).step '}' =
      .ok ((r.put (.object fields.reverse)).moved ['}']) := by
  have hclose : ((r.inObject fields key outline mode).moved ['}']).close =
      (r.put (.object fields.reverse)).moved ['}'] :=
    (put_mode (r.moved ['}']) mode _).trans (put_moved r _ _)
  have hadmits : outline.admitsNoFields = true := by
    cases outline <;> simp_all [Outline.isWord, Outline.admitsNoFields]
  rcases hmode with rfl | rfl
  · exact (step_token (by exact trivial) (by decide)).trans (congrArg Except.ok hclose)
  · refine (step_token (by exact trivial) (by decide)).trans ?_
    rw [← hclose]
    simp [stepToken, stepFirstKey, inObject, objectOutline, hadmits]

theorem step_listComma :
    (r.inList done item .next).step ',' = .ok ((r.moved [',']).inList done item .value) :=
  step_token (by exact trivial) (by decide)

theorem step_objectComma :
    (r.inObject fields key outline .next).step ',' =
      .ok ((r.moved [',']).inObject fields key outline .nextKey) :=
  step_token (by exact trivial) (by decide)

/-- A key in quotes and the colon after it. -/
theorem feed_quotedKey {mode : Mode} (hmode : mode = .firstKey ∨ mode = .nextKey) (name : String)
    (rest : List Char) :
    feed (quoted name ++ ':' :: rest) (r.inObject fields key outline mode) =
      feed rest ((r.moved (quoted name ++ [':'])).inObject fields name outline .value) := by
  have hopen : (r.inObject fields key outline mode).step '"' =
      .ok ((r.moved ['"']).inObject fields key outline
        (.key { strict := !outline.isSkipped })) := by
    rcases hmode with rfl | rfl <;> exact step_token (by exact trivial) (by decide)
  have hchars := feed_key
    (Quoted.feed?_escapes (q := { strict := !outline.isSkipped }) rfl name.toList)
    ((r.moved ['"']).inObject fields key outline .next)
  have hcolon (r : Reader) : (r.inObject fields name outline .colon).step ':' =
      .ok ((r.moved [':']).inObject fields name outline .value) :=
    step_token (by exact trivial) (by decide)
  simp only [quoted, List.cons_append, List.append_assoc, List.nil_append]
  rw [feed_cons_ok hopen]
  refine (feed_append_ok hchars _).trans ?_
  rw [feed_cons_ok (step_closeKey rfl _), toText_reverse]
  refine (feed_cons_ok (hcolon (((r.moved ['"']).moved _).moved ['"'])) rest).trans ?_
  simp

/-- What opens an array or an object, where another level is allowed. -/
theorem step_open (h : AwaitsValue r) (hskip : r.outline.isSkipped = false) {c : Char}
    (frame : Frame) (mode : Mode) (hc : isSpace c = false ∧ c ≠ ']')
    (hopen : ∀ (r' : Reader) (fault : Fault), r'.outline = r.outline →
      r'.stepValue c fault = r'.openFrame frame mode) :
    r.step c = if 0 < maxDepth - r.stack.length then
        .ok { r.moved [c] with stack := frame :: r.stack, mode }
      else (r.moved [c]).fail .nestedTooDeep := by
  obtain ⟨fault, hstep⟩ := step_awaitsValue h hc.1 hc.2
  rw [hstep, hopen _ fault (moved_outline r [c])]
  simp only [openFrame, moved_outline, moved_stack, hskip, Bool.false_eq_true, false_or,
    Nat.sub_pos_iff_lt]

/-- Between brackets a value is read, or refused, as it is where they open, if they may. -/
theorem takes_open {c : Char} {frame : Frame} {mode : Mode} {inside : List Char} {legible : Bool}
    {v : Json} {rest : List Char}
    (hopen : r.step c = if 0 < maxDepth - r.stack.length then
        .ok { r.moved [c] with stack := frame :: r.stack, mode }
      else (r.moved [c]).fail .nestedTooDeep)
    (hinside : if legible then
        feed (inside ++ rest) { r.moved [c] with stack := frame :: r.stack, mode } =
          feed rest (((r.moved [c]).put v).moved inside)
      else ∃ m, feed (inside ++ rest) { r.moved [c] with stack := frame :: r.stack, mode } =
        .error m) :
    Takes r (c :: inside)
      (if decide (0 < maxDepth - r.stack.length) && legible then some v else none) rest := by
  by_cases hroom : 0 < maxDepth - r.stack.length
  · rw [if_pos hroom] at hopen
    simp only [hroom, decide_true, Bool.true_and, Takes, List.cons_append, feed_cons_ok hopen]
    cases legible with
    | true => exact hinside.trans (by rw [put_moved, moved_moved, List.singleton_append])
    | false => exact hinside
  · rw [if_neg hroom] at hopen
    simp only [hroom, decide_false, Bool.false_and, Bool.false_eq_true, if_false, Takes,
      List.cons_append, feed_cons, hopen]
    exact ⟨_, rfl⟩

end Inside

/-- What stands after an item or a field ends a number. -/
theorem endsBefore_of_delimiter (j : Json) {rest : List Char}
    (h : ∃ c tail, rest = c :: tail ∧ IsDelimiter c) : EndsBefore j rest := by
  cases j <;> first | exact h | exact trivial

/-- Blanks before a delimiter end a number as the delimiter does. -/
theorem isDelimiter_head_append {blanks : List Char} (h : ∀ c ∈ blanks, isSpace c) {d : Char}
    (hd : IsDelimiter d) (rest : List Char) :
    ∃ c tail, blanks ++ d :: rest = c :: tail ∧ IsDelimiter c := by
  cases blanks with
  | nil => exact ⟨d, rest, rfl, hd⟩
  | cons c more => exact ⟨c, _, rfl, .inr (.inr (.inr (h c (by simp))))⟩

section
variable (l : Layout)

mutual

/-- A written tree is read as what it comes back as, or refused. -/
theorem takes_layout : ∀ (j : Json) (level : Nat) (r : Reader), AwaitsValue r →
    r.outline.fits j → ∀ rest, EndsBefore j rest → Takes r (l.text level j)
      (if j.readable (maxDepth - r.stack.length) then some j.reread else none) rest
  | .null, level, r, h, hfit, rest, _ => by
    simp only [Outline.fits, Bool.and_eq_true, Bool.not_eq_true'] at hfit
    simpa [Layout.text, scalarText, readable, reread, withReals] using takes_null h hfit.2 rest
  | .bool b, level, r, h, hfit, rest, _ => by
    simp only [Outline.fits, Bool.and_eq_true, Bool.not_eq_true'] at hfit
    simpa [Layout.text, readable, reread, withReals] using takes_bool h hfit.2 b rest
  | .text s, level, r, h, hfit, rest, _ => by
    simpa [Layout.text, scalarText, readable, reread, withReals] using takes_text h s rest
  | .integer n, level, r, h, hfit, rest, hrest => by
    simp only [Outline.fits, Bool.and_eq_true, Bool.not_eq_true', decide_eq_true_eq] at hfit
    obtain ⟨⟨⟨hskip, hword⟩, hlow⟩, hhigh⟩ := hfit
    obtain ⟨m, hm, hcomplete, hvalue⟩ := Numeral.ofText?_integerText hlow hhigh
    have := takes_numeral h hskip hword hm hcomplete hrest
    rw [hvalue] at this
    simpa [Layout.text, scalarText, readable, reread, withReals] using this
  | .real x, level, r, h, hfit, rest, hrest => by
    simp only [Outline.fits, Bool.and_eq_true, Bool.not_eq_true'] at hfit
    cases hx : documentNumber? x with
    | none =>
      have hreread : reread? x = some .null := by simp [reread?, hx]
      simpa [Layout.text, scalarText, hx, readable, reread, withReals, rereadReal, hreread]
        using takes_null h hfit.2 rest
    | some numeral =>
      obtain ⟨n, hn, hphase⟩ := ofText?_documentNumber? hx
      have hcomplete : n.isComplete := by
        rcases hphase with h | h <;> simp [Numeral.isComplete, h]
      have hreread : reread? x = n.toJson? := by simp [reread?, hx, hn]
      have := takes_numeral h hfit.1 hfit.2 hn hcomplete hrest
      cases hv : n.toJson? <;>
        simpa [Layout.text, scalarText, hx, readable, reread, withReals, rereadReal, hreread, hv]
          using this
  | .array items, level, r, h, hfit, rest, _ => by
    simp only [Outline.fits, Bool.and_eq_true, Bool.not_eq_true'] at hfit
    obtain ⟨⟨hskip, hword⟩, hitems⟩ := hfit
    have hopen := step_open r h hskip (c := '[') (.items [] r.outline.item)
      .firstItem (by decide) fun r' fault ho => by
        simp [stepValue, ho, admits_of_not_isWord hword, Numeral.start?]
    rw [readable]
    cases items with
    | nil =>
      have hclose := step_closeList (r.moved ['[']) [] r.outline.item (.inr rfl)
      refine takes_open r hopen ?_
      rw [readableItems, if_pos rfl]
      exact feed_cons_ok hclose rest
    | cons item more =>
      have hinside := takes_layoutItems (item :: more) (level + 1) (r.moved ['[']) []
        r.outline.item .firstItem (.inr rfl) nofun hitems (l.line_isSpace level) rest
      rw [moved_stack, ← Nat.sub_sub] at hinside
      simp only [Layout.text, List.cons_append, List.append_assoc]
      refine takes_open r hopen ?_
      simp only [List.append_assoc, List.cons_append, List.nil_append]
      exact hinside
  | .object fields, level, r, h, hfit, rest, _ => by
    simp only [Outline.fits, Bool.and_eq_true, Bool.not_eq_true'] at hfit
    obtain ⟨⟨hskip, hword⟩, hfields⟩ := hfit
    have hopen := step_open r h hskip (c := '{') (.fields [] "" r.outline)
      .firstKey (by decide) fun r' fault ho => by
        simp [stepValue, ho, admits_of_not_isWord hword, Numeral.start?]
    rw [readable]
    cases fields with
    | nil =>
      have hclose := step_closeObject (r.moved ['{']) [] "" r.outline (.inr rfl) hword
      refine takes_open r hopen ?_
      rw [readableFields, if_pos rfl]
      exact feed_cons_ok hclose rest
    | cons field more =>
      have hinside := takes_layoutFields (field :: more) (level + 1) (r.moved ['{']) [] ""
        r.outline .firstKey (.inl rfl) nofun hword hfields (l.line_isSpace level) rest
      rw [moved_stack, ← Nat.sub_sub] at hinside
      simp only [Layout.text, List.cons_append, List.append_assoc]
      refine takes_open r hopen ?_
      simp only [List.append_assoc, List.cons_append, List.nil_append]
      exact hinside

/-- Items are read one after the other, up to the end of the array. -/
theorem takes_layoutItems : ∀ (items : List Json) (level : Nat) (r : Reader) (done : List Json)
    (item : Outline) (mode : Mode), mode = .value ∨ mode = .firstItem → items ≠ [] →
    item.fitsItems items → ∀ {last : List Char}, (∀ c ∈ last, isSpace c) → ∀ rest,
    if readableItems (maxDepth - (r.stack.length + 1)) items then
      feed (l.itemsText level items ++ (last ++ ']' :: rest)) (r.inList done item mode) =
        feed rest ((r.put (.array (done.reverse ++ withRealsItems rereadReal items))).moved
          (l.itemsText level items ++ (last ++ [']'])))
    else ∃ m, feed (l.itemsText level items ++ (last ++ ']' :: rest)) (r.inList done item mode) =
      .error m
  | [], _, _, _, _, _, _, hne, _, _, _, _ => (hne rfl).elim
  | j :: items, level, r, done, item, mode, hmode, _, hfit, last, hlast, rest => by
    simp only [Outline.fitsItems, Bool.and_eq_true] at hfit
    have hends : EndsBefore j (l.itemsTail level items ++ (last ++ ']' :: rest)) := by
      refine endsBefore_of_delimiter j ?_
      cases items
      · exact isDelimiter_head_append hlast (.inr (.inl rfl)) rest
      · exact ⟨_, _, rfl, .inl rfl⟩
    have hm : BetweenTokens (r.inList done item mode).mode := by
      rcases hmode with rfl | rfl <;> exact trivial
    have hj := takes_layout j level ((r.moved (l.line level)).inList done item mode) hmode hfit.1 _
      hends
    rw [Layout.itemsText_cons, List.append_assoc, feed_blanks hm (l.line_isSpace level),
      List.append_assoc, inList_moved]
    rw [show ((r.moved (l.line level)).inList done item mode).stack.length =
      r.stack.length + 1 from rfl] at hj
    by_cases hread : j.readable (maxDepth - (r.stack.length + 1))
    · rw [if_pos hread] at hj
      simp only [Takes, inList_put, inList_moved] at hj
      rw [hj, readableItems, hread, Bool.true_and]
      cases items with
      | nil =>
        have hclose := step_closeList (((r.moved (l.line level)).moved (l.text level j)).moved last)
          (j.reread :: done) item (.inl rfl)
        rw [Layout.itemsTail, List.nil_append, feed_blanks (by exact trivial) hlast, inList_moved,
          feed_cons_ok hclose]
        simp [readableItems, withRealsItems, reread, put_moved]
      | cons k items =>
        have hcomma := step_listComma ((r.moved (l.line level)).moved (l.text level j))
          (j.reread :: done) item
        have hrest := takes_layoutItems (k :: items) level
          (((r.moved (l.line level)).moved (l.text level j)).moved [',']) (j.reread :: done) item
          .value (.inl rfl) nofun hfit.2 hlast rest
        rw [Layout.itemsTail, List.cons_append, feed_cons_ok hcomma]
        simpa [withRealsItems, put_moved, reread] using hrest
    · rw [if_neg hread] at hj
      simp only [readableItems, hread, Bool.false_and, Bool.false_eq_true, if_false]
      exact hj

/-- Fields are read one after the other, up to the end of the object. -/
theorem takes_layoutFields : ∀ (fields : Fields) (level : Nat) (r : Reader) (done : Fields)
    (key : String) (outline : Outline) (mode : Mode), mode = .firstKey ∨ mode = .nextKey →
    fields ≠ [] → outline.isWord = false → outline.fitsFields fields →
    ∀ {last : List Char}, (∀ c ∈ last, isSpace c) → ∀ rest,
    if readableFields (maxDepth - (r.stack.length + 1)) fields then
      feed (l.fieldsText level fields ++ (last ++ '}' :: rest))
          (r.inObject done key outline mode) =
        feed rest ((r.put (.object (done.reverse ++ withRealsFields rereadReal fields))).moved
          (l.fieldsText level fields ++ (last ++ ['}'])))
    else ∃ m, feed (l.fieldsText level fields ++ (last ++ '}' :: rest))
      (r.inObject done key outline mode) = .error m
  | [], _, _, _, _, _, _, _, hne, _, _, _, _, _ => (hne rfl).elim
  | (name, j) :: fields, level, r, done, key, outline, mode, hmode, _, hword, hfit, last, hlast,
      rest => by
    simp only [Outline.fitsFields, Bool.and_eq_true] at hfit
    have hends : EndsBefore j (l.fieldsTail level fields ++ (last ++ '}' :: rest)) := by
      refine endsBefore_of_delimiter j ?_
      cases fields
      · exact isDelimiter_head_append hlast (.inr (.inr (.inl rfl))) rest
      · exact ⟨_, _, rfl, .inl rfl⟩
    have hm : BetweenTokens (r.inObject done key outline mode).mode := by
      rcases hmode with rfl | rfl <;> exact trivial
    set before := l.line level ++ (quoted name ++ [':'] ++ l.gap) with hbefore
    have hj := takes_layout j level ((r.moved before).inObject done name outline .value) (.inl rfl)
      hfit.1 _ hends
    have hkey (rest : List Char) :
        feed (l.line level ++ (quoted name ++ ':' :: (l.gap ++ rest)))
          (r.inObject done key outline mode) =
        feed rest ((r.moved before).inObject done name outline .value) := by
      rw [feed_blanks hm (l.line_isSpace level), inObject_moved,
        feed_quotedKey _ done key outline hmode, feed_blanks (by exact trivial) l.gap_isSpace,
        inObject_moved]
      simp [hbefore]
    rw [show ((r.moved before).inObject done name outline .value).stack.length =
      r.stack.length + 1 from rfl] at hj
    rw [Layout.fieldsText_cons]
    simp only [List.append_assoc, List.cons_append] at hj ⊢
    rw [hkey]
    by_cases hread : j.readable (maxDepth - (r.stack.length + 1))
    · rw [if_pos hread] at hj
      simp only [Takes, inObject_put, inObject_moved] at hj
      rw [hj, readableFields, hread, Bool.true_and]
      cases fields with
      | nil =>
        have hclose := step_closeObject (((r.moved before).moved (l.text level j)).moved last)
          ((name, j.reread) :: done) name outline (.inl rfl) hword
        rw [Layout.fieldsTail, List.nil_append, feed_blanks (by exact trivial) hlast,
          inObject_moved, feed_cons_ok hclose]
        simp [readableFields, withRealsFields, reread, put_moved, hbefore]
      | cons k fields =>
        have hcomma := step_objectComma ((r.moved before).moved (l.text level j))
          ((name, j.reread) :: done) name outline
        have hrest := takes_layoutFields (k :: fields) level
          (((r.moved before).moved (l.text level j)).moved [',']) ((name, j.reread) :: done) name
          outline .nextKey (.inr rfl) nofun hword hfit.2 hlast rest
        rw [Layout.fieldsTail, List.cons_append, feed_cons_ok hcomma]
        simpa [withRealsFields, put_moved, reread, hbefore] using hrest
    · rw [if_neg hread] at hj
      simp only [readableFields, hread, Bool.false_and, Bool.false_eq_true, if_false]
      exact hj

end

end

end Reader

/-! ## Whole texts -/

/-- A written tree that shows where it ends is read as what it comes back as, or refused. -/
theorem read_layout (l : Layout) {outline : Outline} {j : Json} (hend : Reader.EndsBefore j [])
    (hfit : outline.fits j) :
    if j.readable maxDepth then read outline (String.ofList (l.text 0 j)) = .ok j.reread
    else ∃ m, read outline (String.ofList (l.text 0 j)) = .error m := by
  have htakes := Reader.takes_layout l j 0 { root := outline } (.inl rfl) hfit [] hend
  simp only [List.length_nil, Nat.sub_zero] at htakes
  have hread : read outline (String.ofList (l.text 0 j)) =
      (Reader.feed (l.text 0 j ++ []) { root := outline }).bind Reader.finish := by
    simp [read, Reader.feed, bind]
  split
  · rename_i hreadable
    rw [if_pos hreadable] at htakes
    rw [hread, htakes, Reader.feed_nil]
    rfl
  · rename_i hreadable
    rw [if_neg hreadable] at htakes
    obtain ⟨m, hm⟩ := htakes
    exact ⟨m, by rw [hread, hm]; rfl⟩

/-- A tree in one line. -/
theorem read_compact {outline : Outline} {j : Json} (hend : Reader.EndsBefore j [])
    (hfit : outline.fits j) :
    if j.readable maxDepth then read outline j.compact = .ok j.reread
    else ∃ m, read outline j.compact = .error m := by
  rw [compact, ← Layout.text_tight 0]
  exact read_layout .tight hend hfit

/-! ## Which trees come back -/

mutual

/-- The doubles of a tree. -/
def reals : Json → List Float
  | real x => [x]
  | array items => realsItems items
  | object fields => realsFields fields
  | _ => []

/-- The doubles of some items. -/
def realsItems : List Json → List Float
  | [] => []
  | item :: rest => item.reals ++ realsItems rest

/-- The doubles of some fields. -/
def realsFields : Fields → List Float
  | [] => []
  | (_, value) :: rest => value.reals ++ realsFields rest

end

mutual

/-- How deep arrays and objects are nested in a tree. -/
def depth : Json → Nat
  | array items => depthItems items + 1
  | object fields => depthFields fields + 1
  | _ => 0

/-- How deep arrays and objects are nested in some items. -/
def depthItems : List Json → Nat
  | [] => 0
  | item :: rest => max item.depth (depthItems rest)

/-- How deep arrays and objects are nested in some fields. -/
def depthFields : Fields → Nat
  | [] => 0
  | (_, value) :: rest => max value.depth (depthFields rest)

end

mutual

/-- A tree is read where there is room for its depth, if each of its doubles is. -/
theorem readable_iff : ∀ (j : Json) (room : Nat),
    j.readable room ↔ j.depth ≤ room ∧ ∀ x ∈ j.reals, (reread? x).isSome
  | .null, _ | .bool _, _ | .integer _, _ | .text _, _ => by simp [readable, depth, reals]
  | .real x, _ => by simp [readable, depth, reals]
  | .array items, room => by
    have hroom : 0 < room ∧ depthItems items ≤ room - 1 ↔ depthItems items + 1 ≤ room := by
      omega
    simp only [readable, depth, reals, Bool.and_eq_true, decide_eq_true_eq,
      readableItems_iff items (room - 1), ← and_assoc, hroom]
  | .object fields, room => by
    have hroom : 0 < room ∧ depthFields fields ≤ room - 1 ↔ depthFields fields + 1 ≤ room := by
      omega
    simp only [readable, depth, reals, Bool.and_eq_true, decide_eq_true_eq,
      readableFields_iff fields (room - 1), ← and_assoc, hroom]

theorem readableItems_iff : ∀ (items : List Json) (room : Nat),
    readableItems room items ↔
      depthItems items ≤ room ∧ ∀ x ∈ realsItems items, (reread? x).isSome
  | [], _ => by simp [readableItems, depthItems, realsItems]
  | item :: rest, room => by
    simp only [readableItems, depthItems, realsItems, Bool.and_eq_true, readable_iff item room,
      readableItems_iff rest room, Nat.max_le, List.forall_mem_append]
    tauto

theorem readableFields_iff : ∀ (fields : Fields) (room : Nat),
    readableFields room fields ↔
      depthFields fields ≤ room ∧ ∀ x ∈ realsFields fields, (reread? x).isSome
  | [], _ => by simp [readableFields, depthFields, realsFields]
  | (_, value) :: rest, room => by
    simp only [readableFields, depthFields, realsFields, Bool.and_eq_true, readable_iff value room,
      readableFields_iff rest room, Nat.max_le, List.forall_mem_append]
    tauto

end

mutual

/-- A tree each of whose doubles stays is left alone. -/
theorem withReals_eq_self {f : Float → Json} : ∀ (j : Json), (∀ x ∈ j.reals, f x = .real x) →
    j.withReals f = j
  | .null, _ | .bool _, _ | .integer _, _ | .text _, _ => by simp [withReals]
  | .real x, h => by simpa [withReals] using h x (by simp [reals])
  | .array items, h => by rw [withReals, withRealsItems_eq_self items h]
  | .object fields, h => by rw [withReals, withRealsFields_eq_self fields h]

theorem withRealsItems_eq_self {f : Float → Json} : ∀ (items : List Json),
    (∀ x ∈ realsItems items, f x = .real x) → withRealsItems f items = items
  | [], _ => rfl
  | item :: rest, h => by
    simp only [realsItems, List.forall_mem_append] at h
    rw [withRealsItems, withReals_eq_self item h.1, withRealsItems_eq_self rest h.2]

theorem withRealsFields_eq_self {f : Float → Json} : ∀ (fields : Fields),
    (∀ x ∈ realsFields fields, f x = .real x) → withRealsFields f fields = fields
  | [], _ => rfl
  | (_, value) :: rest, h => by
    simp only [realsFields, List.forall_mem_append] at h
    rw [withRealsFields, withReals_eq_self value h.1, withRealsFields_eq_self rest h.2]

end

section
variable {outline : Outline} {j : Json} (hend : Reader.EndsBefore j []) (hfit : outline.fits j)
  (hdepth : j.depth ≤ maxDepth) (hreals : ∀ x ∈ j.reals, reread? x = some (.real x))
include hend hfit hdepth hreals

/-- A tree that is not nested too deep and whose doubles come back as themselves comes back. -/
theorem read_layout_of_reread (l : Layout) : read outline (String.ofList (l.text 0 j)) = .ok j := by
  have hreadable : j.readable maxDepth := by
    refine (readable_iff j maxDepth).2 ⟨hdepth, fun x hx => ?_⟩
    rw [hreals x hx]
    rfl
  have hstay : j.reread = j := by
    refine withReals_eq_self j fun x hx => ?_
    rw [rereadReal, hreals x hx]
    rfl
  have hread := read_layout l hend hfit
  rwa [if_pos hreadable, hstay] at hread

theorem read_compact_of_reread : read outline j.compact = .ok j := by
  rw [compact, ← Layout.text_tight 0]
  exact read_layout_of_reread hend hfit hdepth hreals .tight

theorem read_indented_of_reread : read outline j.indented = .ok j := by
  rw [indented, ← Layout.text_spacious 0]
  exact read_layout_of_reread hend hfit hdepth hreals .spacious

end

end BranchingStory.Json
