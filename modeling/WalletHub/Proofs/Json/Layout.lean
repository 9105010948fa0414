import Mathlib.Data.List.TakeWhile
import WalletHub.Json.Lexer
import WalletHub.Json.Printer

/-!
# Reading what was printed

A printed value is the characters of its tokens in a row, with blanks between them or nothing
(`Layout`), and the machine that reads text finds the tokens again, whatever the blanks are. Only
words and numbers do not end by themselves: they end with the first character that they cannot
hold, so no two of them may touch (`Apart`), and the tokens of a value never do.

Values with a point or an exponent in a number, and values that no text denotes, are left out
(`Json.Plain`).

* `Lexing.run_token`: what the machine does with the characters of one token.
* `parse?_of_layout`: every layout of a value is read back as the value.
* `parse?_compact`, `parse?_pretty`: both printed forms are layouts.
-/
namespace WalletHub.Json

/-! ## Tokens that can be read back -/

/-- Tokens of values without points and exponents in their numbers. -/
def Token.Plain : Token → Prop
  | .atom .null | .atom (.bool _) | .atom (.num (.integer ..)) => True
  | .atom _ => False
  | .text s => s.isSome
  | _ => True

/-- Whether a token does not end by itself. -/
def Token.isBare : Token → Bool
  | .atom _ => true
  | _ => false

/-- A value all of whose tokens can be read back. -/
def Plain (v : Json) : Prop := ∀ t ∈ v.tokens, t.Plain

/-- Behind a token that is bare or not, no two bare tokens touch. -/
def Apart : Bool → List Token → Prop
  | _, [] => True
  | bare, t :: ts => (bare = false ∨ t.isBare = false) ∧ Apart t.isBare ts

theorem Apart.cons {bare : Bool} {t : Token} {ts : List Token} (ht : t.isBare = false)
    (hts : Apart false ts) : Apart bare (t :: ts) := ⟨.inr ht, ht ▸ hts⟩

theorem Apart.weaken {ts : List Token} (hts : Apart true ts) : Apart false ts := by
  cases ts with
  | nil => trivial
  | cons t ts => exact ⟨.inl rfl, hts.2⟩

mutual

/-- A value may stand wherever what follows it may stand behind a bare token. -/
theorem apart_tokens : ∀ (v : Json) {ts : List Token}, Apart true ts → Apart false (v.tokens ++ ts)
  | .null, _, hts | .bool _, _, hts | .num _, _, hts => ⟨.inl rfl, hts⟩
  | .str _, _, hts | .unreadable, _, hts => .cons rfl hts.weaken
  | .arr [], _, hts => .cons rfl (.cons rfl hts.weaken)
  | .arr (v :: rest), ts, hts => by
    have items := apart_tokens v (apart_moreItemTokens rest hts)
    rw [← List.append_assoc] at items
    exact .cons rfl items
  | .obj [], _, hts => .cons rfl (.cons rfl hts.weaken)
  | .obj ((_, v) :: rest), ts, hts => by
    have members := apart_tokens v (apart_moreMemberTokens rest hts)
    rw [← List.append_assoc] at members
    exact .cons rfl (.cons rfl (.cons rfl members))

theorem apart_moreItemTokens : ∀ (vs : List Json) {ts : List Token}, Apart true ts →
    Apart true (moreItemTokens vs ++ ts)
  | [], _, hts => .cons rfl hts.weaken
  | v :: rest, ts, hts => by
    have items := apart_tokens v (apart_moreItemTokens rest hts)
    rw [← List.append_assoc] at items
    exact .cons rfl items

theorem apart_moreMemberTokens : ∀ (ms : List (String × Json)) {ts : List Token}, Apart true ts →
    Apart true (moreMemberTokens ms ++ ts)
  | [], _, hts => .cons rfl hts.weaken
  | (_, v) :: rest, ts, hts => by
    have members := apart_tokens v (apart_moreMemberTokens rest hts)
    rw [← List.append_assoc] at members
    exact .cons rfl (.cons rfl (.cons rfl members))

end

/-! ## Plain values -/

theorem plain_str (s : String) : (Json.str s).Plain := by
  intro t ht
  rw [List.mem_singleton.1 ht]
  rfl

theorem plain_null : Json.null.Plain := by
  intro t ht
  rw [List.mem_singleton.1 ht]
  trivial

theorem plain_integer (negative : Bool) (n : Nat) : (Json.num (.integer negative n)).Plain := by
  intro t ht
  rw [List.mem_singleton.1 ht]
  trivial

theorem plain_moreItemTokens {vs : List Json} (hvs : ∀ v ∈ vs, v.Plain) :
    ∀ t ∈ moreItemTokens vs, t.Plain := by
  induction vs with
  | nil => exact List.forall_mem_singleton.2 trivial
  | cons v vs ih =>
    refine List.forall_mem_cons.2 ⟨trivial, List.forall_mem_append.2 ⟨?_, ?_⟩⟩
    · exact hvs v List.mem_cons_self
    · exact ih fun w hw => hvs w (List.mem_cons_of_mem _ hw)

theorem plain_arr {vs : List Json} (hvs : ∀ v ∈ vs, v.Plain) : (Json.arr vs).Plain := by
  refine List.forall_mem_cons.2 ⟨trivial, ?_⟩
  cases vs with
  | nil => exact List.forall_mem_singleton.2 trivial
  -- the first item stands as the others do, without a comma before it
  | cons v vs => exact (List.forall_mem_cons.1 (plain_moreItemTokens hvs)).2

theorem plain_moreMemberTokens {ms : List (String × Json)} (hms : ∀ m ∈ ms, m.2.Plain) :
    ∀ t ∈ moreMemberTokens ms, t.Plain := by
  induction ms with
  | nil => exact List.forall_mem_singleton.2 trivial
  | cons m ms ih =>
    refine List.forall_mem_cons.2 ⟨trivial, List.forall_mem_cons.2 ⟨rfl,
      List.forall_mem_cons.2 ⟨trivial, List.forall_mem_append.2 ⟨?_, ?_⟩⟩⟩⟩
    · exact hms m List.mem_cons_self
    · exact ih fun n hn => hms n (List.mem_cons_of_mem _ hn)

theorem plain_obj {ms : List (String × Json)} (hms : ∀ m ∈ ms, m.2.Plain) :
    (Json.obj ms).Plain := by
  refine List.forall_mem_cons.2 ⟨trivial, ?_⟩
  cases ms with
  | nil => exact List.forall_mem_singleton.2 trivial
  | cons m ms => exact (List.forall_mem_cons.1 (plain_moreMemberTokens hms)).2

/-! ## Strings -/

namespace Lexing

theorem run_append (l : Lexing) (cs ds : List Char) :
    l.run (cs ++ ds) = (l.run cs).bind (run · ds) := by
  induction cs generalizing l with
  | nil => rfl
  | cons c cs ih =>
    simp only [List.cons_append, run]
    cases l.step c with
    | none => rfl
    | some l' => exact ih l'

theorem step_unicode (ps : List Piece) (out : List Token) {c : Char} {d : Nat}
    (digit : Text.hexDigit? c = some d) (left value : Nat) :
    step ⟨.unicode ps (left + 2) value, out⟩ c =
      some ⟨.unicode ps (left + 1) (16 * value + d), out⟩ := by
  rw [step, digit]
  rfl

theorem step_unicode_last (ps : List Piece) (out : List Token) {c : Char} {d : Nat}
    (digit : Text.hexDigit? c = some d) (value : Nat) :
    step ⟨.unicode ps 1 value, out⟩ c =
      some ⟨.text (Piece.ofUnit (16 * value + d) :: ps), out⟩ := by
  rw [step, digit]
  rfl

/-- The four digits of a code unit name it. -/
theorem run_unitDigits (ps : List Piece) (out : List Token) {n : Nat} (hn : n < 0x10000) :
    run ⟨.unicode ps 4 0, out⟩ (unitDigits n) = some ⟨.text (Piece.ofUnit n :: ps), out⟩ := by
  have digit (k : Nat) : Text.hexDigit? (Nat.digitChar (k % 16)) = some (k % 16) :=
    Text.hexDigit?_digitChar (Nat.mod_lt k (by decide))
  have value : 16 * (16 * (16 * (16 * 0 + n / 4096 % 16) + n / 256 % 16) + n / 16 % 16) + n % 16 =
      n := by omega
  rw [unitDigits, run, step_unicode ps out (digit _), Option.bind_some, run,
    step_unicode ps out (digit _), Option.bind_some, run, step_unicode ps out (digit _),
    Option.bind_some, run, step_unicode_last ps out (digit _), value]
  rfl

/-- An escaped character is read as itself. -/
theorem run_escape (ps : List Piece) (out : List Token) (c : Char) :
    run ⟨.text ps, out⟩ (escape c) = some ⟨.text (.char c :: ps), out⟩ := by
  unfold escape
  split
  iterate 7 rfl
  rename_i noQuote noSlash _ _ _ _ _
  split
  · rename_i control
    -- a control character is no half of a surrogate pair
    have named : Piece.ofUnit c.toNat = .char c := by
      rw [Piece.ofUnit, if_neg (by omega), Char.ofNat_toNat]
    have digits := run_unitDigits ps out (n := c.toNat) (by omega)
    rw [named] at digits
    exact digits
  · rename_i visible
    simp only [run, step, if_neg noQuote, if_neg noSlash, if_neg visible]
    rfl

theorem run_escapes (ps : List Piece) (out : List Token) (cs : List Char) :
    run ⟨.text ps, out⟩ (cs.flatMap escape) = some ⟨.text ((cs.map .char).reverse ++ ps), out⟩ := by
  induction cs generalizing ps with
  | nil => rfl
  | cons c cs ih =>
    rw [List.flatMap_cons, run_append, run_escape, Option.bind_some, ih, List.map_cons,
      List.reverse_cons, List.append_assoc, List.singleton_append]

theorem joinPieces_chars (cs : List Char) : joinPieces (cs.map .char) = some cs := by
  induction cs with
  | nil => rfl
  | cons c cs ih => rw [List.map_cons, joinPieces, ih, Option.map_some]

/-- **Strings.** A string between quotation marks is read back, whatever is in it. -/
theorem run_quoted (out : List Token) (s : String) :
    run ⟨.idle, out⟩ (quoted s) = some ⟨.idle, .text (some s) :: out⟩ := by
  have opened : step ⟨.idle, out⟩ '"' = some ⟨.text [], out⟩ := rfl
  rw [quoted, run, opened, Option.bind_some, run_append, run_escapes, Option.bind_some,
    List.append_nil]
  simp only [run, step, if_true, List.reverse_reverse, joinPieces_chars, Option.map_some,
    String.ofList_toList, Option.bind_some]

end Lexing

/-! ## Numbers -/

/-- Only zero begins with the digit zero. -/
theorem head_decimal {n : Nat} (hn : (Text.decimal n).head? = some '0') : n = 0 := by
  induction n using Nat.strongRecOn with
  | ind n ih =>
    unfold Text.decimal at hn ih
    by_cases small : n < 10
    · have zero : ∀ d < 10, Nat.digitChar d = '0' → d = 0 := by decide
      rw [Nat.toDigits_of_lt_base small] at hn
      exact zero n small (Option.some.inj hn)
    · obtain ⟨d, ds, leading⟩ := List.exists_cons_of_ne_nil (Text.decimal_ne_nil (n / 10))
      unfold Text.decimal at leading
      rw [Nat.toDigits_of_base_le (by decide) (by omega), leading] at hn
      have := ih (n / 10) (by omega) (leading ▸ hn)
      omega

namespace Number

theorem parseUnsigned?_decimal (negative : Bool) (n : Nat) :
    parseUnsigned? negative (Text.decimal n) = some (.integer negative n) := by
  have digits : ∀ c ∈ Text.decimal n, c.isDigit = true := fun _ => Text.isDigit_of_mem_decimal
  have whole : (Text.decimal n).takeWhile Char.isDigit = Text.decimal n :=
    List.takeWhile_eq_self_iff.2 digits
  have rest : (Text.decimal n).dropWhile Char.isDigit = [] := List.dropWhile_eq_nil_iff.2 digits
  have plain : ((Text.decimal n).isEmpty ||
      ((Text.decimal n).head? == some '0' && (Text.decimal n).length != 1)) = false := by
    simp only [Bool.or_eq_false_iff, List.isEmpty_eq_false_iff, Bool.and_eq_false_iff,
      beq_eq_false_iff_ne, bne_eq_false_iff_eq]
    refine ⟨Text.decimal_ne_nil n, ?_⟩
    by_cases zero : n = 0
    · subst zero
      exact .inr rfl
    · exact .inl fun leading => zero (head_decimal leading)
  rw [parseUnsigned?, whole, rest, plain]
  exact congrArg (fun k => some (Number.integer negative k)) (Text.ofDecimal_decimal n)

theorem parse?_chars (negative : Bool) (n : Nat) :
    parse? (chars (.integer negative n)) = some (.integer negative n) := by
  cases negative with
  | true => exact parseUnsigned?_decimal true n
  | false =>
    have unsigned := parseUnsigned?_decimal false n
    change parse? (Text.decimal n) = _
    unfold parse?
    split
    · rename_i cs signed
      have digit := Text.isDigit_of_mem_decimal (n := n) (c := '-') (signed ▸ List.mem_cons_self)
      exact absurd digit (by decide)
    · exact unsigned

end Number

/-! ## Tokens -/

namespace Lexing

/-- A character that ends words and numbers. -/
def Ends (c : Char) : Prop := c.isLower = false ∧ inNumber c = false

/-- The machine has these tokens, or has them as soon as the last one ends. -/
structure Ready (l : Lexing) (bare : Bool) (out : List Token) : Prop where
  flush : l.flush = some out
  next : ∀ c, Ends c → l.step c = idleStep out c
  idle : bare = false → l = ⟨.idle, out⟩

theorem ready_idle (bare : Bool) (out : List Token) : Ready ⟨.idle, out⟩ bare out :=
  ⟨rfl, fun _ _ => rfl, fun _ => rfl⟩

variable {l : Lexing} {bare : Bool} {out : List Token} {cs : List Char}

/-- A character that ends whatever was before is read as if nothing was. -/
theorem Ready.run_cons (hl : l.Ready bare out) {c : Char} (hc : Ends c) :
    l.run (c :: cs) = run ⟨.idle, out⟩ (c :: cs) := by
  rw [run, hl.next c hc]
  rfl

theorem ends_of_isBlank {c : Char} (hc : isBlank c = true) : Ends c := by
  simp only [isBlank, Bool.or_eq_true, beq_iff_eq] at hc
  rcases hc with ((rfl | rfl) | rfl) | rfl <;> exact ⟨by decide, by decide⟩

/-- Blanks end what was before. -/
theorem Ready.run_blanks (hl : l.Ready bare out) (blanks : ∀ c ∈ cs, isBlank c = true) :
    ∃ l', l.run cs = some l' ∧ l'.Ready bare out := by
  induction cs generalizing l with
  | nil => exact ⟨l, rfl, hl⟩
  | cons c cs ih =>
    have blank := blanks c List.mem_cons_self
    have still : idleStep out c = some ⟨.idle, out⟩ := by rw [idleStep, if_pos blank]
    obtain ⟨l', hrun, hl'⟩ := ih (ready_idle bare out) fun d hd =>
      blanks d (List.mem_cons_of_mem _ hd)
    refine ⟨l', ?_, hl'⟩
    rw [run, hl.next c (ends_of_isBlank blank), still]
    exact hrun

/-- A word ends with the first character that is no small letter. -/
theorem ready_word {letters : List Char} {t : Token}
    (word : wordToken? letters.reverse = some t) : Ready ⟨.word letters, out⟩ true (t :: out) := by
  have flushed : flush ⟨.word letters, out⟩ = some (t :: out) :=
    congrArg (Option.map (· :: out)) word
  refine ⟨flushed, fun c hc => ?_, fun h => by cases h⟩
  simp only [step, hc.1, Bool.false_eq_true, if_false, flushed, Option.bind_some]

/-- A number ends with the first character that no number holds. -/
theorem ready_number {n : Number} (number : Number.parse? cs.reverse = some n) :
    Ready ⟨.number cs, out⟩ true (.atom (.num n) :: out) := by
  have flushed : flush ⟨.number cs, out⟩ = some (.atom (.num n) :: out) :=
    congrArg (Option.map fun n => Token.atom (.num n) :: out) number
  refine ⟨flushed, fun c hc => ?_, fun h => by cases h⟩
  simp only [step, hc.2, Bool.false_eq_true, if_false, flushed, Option.bind_some]

theorem run_inNumber {ds : List Char} (hds : ∀ c ∈ ds, inNumber c = true) :
    run ⟨.number cs, out⟩ ds = some ⟨.number (ds.reverse ++ cs), out⟩ := by
  induction ds generalizing cs with
  | nil => rfl
  | cons d ds ih =>
    have held : step ⟨.number cs, out⟩ d = some ⟨.number (d :: cs), out⟩ := by
      simp only [step, hds d List.mem_cons_self, if_true]
    rw [run, held, Option.bind_some, ih fun c hc => hds c (List.mem_cons_of_mem _ hc),
      List.reverse_cons, List.append_assoc, List.singleton_append]

theorem inNumber_of_isDigit {c : Char} (hc : c.isDigit = true) : inNumber c = true := by
  simp only [inNumber, hc, Bool.true_or]

/-- A whole number begins with a digit or a sign, and all its characters may stand in a number. -/
theorem run_integer (negative : Bool) (n : Nat) :
    run ⟨.idle, out⟩ (Number.chars (.integer negative n)) =
      some ⟨.number (Number.chars (.integer negative n)).reverse, out⟩ := by
  have digits : ∀ c ∈ Text.decimal n, c.isDigit = true := fun _ => Text.isDigit_of_mem_decimal
  have held : ∀ c ∈ Number.chars (.integer negative n), inNumber c = true := by
    refine List.forall_mem_append.2 ⟨?_, fun c hc => inNumber_of_isDigit (digits c hc)⟩
    cases negative <;> simp [inNumber]
  have first : ∃ c rest, Number.chars (.integer negative n) = c :: rest ∧
      idleStep out c = some ⟨.number [c], out⟩ := by
    cases negative with
    | true => exact ⟨'-', Text.decimal n, rfl, rfl⟩
    | false =>
      obtain ⟨c, rest, decimal⟩ := List.exists_cons_of_ne_nil (Text.decimal_ne_nil n)
      refine ⟨c, rest, decimal, ?_⟩
      have digit := digits c (decimal ▸ List.mem_cons_self)
      have noBlank : ¬isBlank c = true := by
        intro blank
        have ends := (ends_of_isBlank blank).2
        rw [inNumber_of_isDigit digit] at ends
        cases ends
      have noQuote : c ≠ '"' := by
        intro quote
        rw [quote] at digit
        exact absurd digit (by decide)
      rw [idleStep, if_neg noBlank, if_neg noQuote, if_pos (.inr digit)]
  obtain ⟨c, rest, chars, begun⟩ := first
  rw [chars] at held ⊢
  rw [run, step, begun, Option.bind_some,
    run_inNumber fun d hd => held d (List.mem_cons_of_mem _ hd), List.reverse_cons]

/-- **Tokens.** Between tokens, the machine reads the characters of a token as the token. -/
theorem run_token {t : Token} (plain : t.Plain) (out : List Token) :
    ∃ l, run ⟨.idle, out⟩ t.chars = some l ∧ l.Ready t.isBare (t :: out) := by
  cases t with
  | openArr | closeArr | openObj | closeObj | comma | colon => exact ⟨_, rfl, ready_idle ..⟩
  | text s =>
    obtain ⟨s, rfl⟩ := Option.isSome_iff_exists.1 plain
    exact ⟨_, run_quoted out s, ready_idle ..⟩
  | atom v =>
    cases v with
    | null => exact ⟨⟨.word "null".toList.reverse, out⟩, rfl, ready_word rfl⟩
    | bool b =>
      cases b with
      | true => exact ⟨⟨.word "true".toList.reverse, out⟩, rfl, ready_word rfl⟩
      | false => exact ⟨⟨.word "false".toList.reverse, out⟩, rfl, ready_word rfl⟩
    | num n =>
      cases n with
      | integer negative n =>
        refine ⟨_, run_integer negative n, ready_number ?_⟩
        rw [List.reverse_reverse]
        exact Number.parse?_chars negative n
      | decimal => exact plain.elim
    | _ => exact plain.elim

/-- Tokens that end by themselves begin with a character that ends what was before. -/
theorem chars_of_isBare_false {t : Token} (plain : t.Plain) (ends : t.isBare = false) :
    ∃ c rest, t.chars = c :: rest ∧ Ends c := by
  cases t with
  | atom => cases ends
  | text s =>
    obtain ⟨s, rfl⟩ := Option.isSome_iff_exists.1 plain
    exact ⟨'"', _, rfl, by decide, by decide⟩
  | openArr | closeArr | openObj | closeObj | comma | colon =>
    exact ⟨_, _, rfl, by decide, by decide⟩

/-- A token may follow another one unless both are bare. -/
theorem Ready.run_token (hl : l.Ready bare out) {t : Token} (plain : t.Plain)
    (apart : bare = false ∨ t.isBare = false) :
    ∃ l', l.run t.chars = some l' ∧ l'.Ready t.isBare (t :: out) := by
  have alone := Lexing.run_token plain out
  rcases apart with idle | ends
  · rw [hl.idle idle]
    exact alone
  · obtain ⟨c, rest, chars, hc⟩ := chars_of_isBare_false plain ends
    rw [chars] at alone ⊢
    rw [hl.run_cons hc]
    exact alone

end Lexing

/-! ## Layouts -/

/-- Tokens in a row, with blanks or nothing behind each. -/
inductive Layout : List Token → List Char → Prop
  | nil : Layout [] []
  | cons {t : Token} {ts : List Token} {blanks cs : List Char}
      (hblanks : ∀ c ∈ blanks, Lexing.isBlank c = true) (rest : Layout ts cs) :
      Layout (t :: ts) (t.chars ++ (blanks ++ cs))

/-- The tokens of a layout are found one after the other, with whatever is between them. -/
theorem Layout.run {ts : List Token} {cs : List Char} (layout : Layout ts cs)
    (plain : ∀ t ∈ ts, t.Plain) {l : Lexing} {bare : Bool} {out : List Token}
    (hl : l.Ready bare out) (apart : Apart bare ts) :
    ∃ l' bare', l.run cs = some l' ∧ l'.Ready bare' (ts.reverse ++ out) := by
  induction layout generalizing l bare out with
  | nil => exact ⟨l, bare, rfl, hl⟩
  | @cons t ts blanks cs hblanks rest ih =>
    obtain ⟨l₁, token, hl₁⟩ := hl.run_token (plain t List.mem_cons_self) apart.1
    obtain ⟨l₂, gap, hl₂⟩ := hl₁.run_blanks hblanks
    obtain ⟨l₃, bare', others, hl₃⟩ := ih (fun u hu => plain u (List.mem_cons_of_mem _ hu)) hl₂
      apart.2
    refine ⟨l₃, bare', ?_, ?_⟩
    · rw [Lexing.run_append, token, Option.bind_some, Lexing.run_append, gap, Option.bind_some,
        others]
    · rwa [List.reverse_cons, List.append_assoc, List.singleton_append]

/-- **Layouts.** Every layout of a value is read back as the value. -/
theorem parse?_of_layout {v : Json} (plain : v.Plain) {cs : List Char}
    (layout : Layout v.tokens cs) : parse? (String.ofList cs) = some v := by
  have apart : Apart false v.tokens := List.append_nil v.tokens ▸ apart_tokens v trivial
  obtain ⟨l, bare, hrun, hl⟩ := layout.run plain (Lexing.ready_idle false []) apart
  have lexed : lex? cs = some v.tokens := by
    rw [lex?, Lexing.start, hrun, Option.bind_some, hl.flush, Option.map_some, List.append_nil,
      List.reverse_reverse]
  rw [parse?, String.toList_ofList, lexed, Option.bind_some, ofTokens?_tokens]

theorem layout_compact (ts : List Token) : Layout ts (ts.flatMap Token.chars) := by
  induction ts with
  | nil => exact .nil
  | cons t ts ih =>
    have nothing : ∀ c ∈ ([] : List Char), Lexing.isBlank c = true :=
      fun _ h => absurd h List.not_mem_nil
    exact .cons nothing ih

theorem isBlank_of_mem_newline {depth : Nat} : ∀ c ∈ newline depth, Lexing.isBlank c = true :=
  List.forall_mem_cons.2 ⟨rfl, fun _ hc => (List.eq_of_mem_replicate hc).symm ▸ rfl⟩

theorem isBlank_of_mem_gap {depth : Nat} {t u : Token} :
    ∀ c ∈ gap depth t u, Lexing.isBlank c = true := by
  unfold gap
  split
  case h_1 | h_2 | h_9 => exact fun _ h => absurd h List.not_mem_nil
  case h_6 => exact List.forall_mem_singleton.2 rfl
  all_goals exact isBlank_of_mem_newline

theorem layout_spread (depth : Nat) (ts : List Token) : Layout ts (spread depth ts) := by
  induction ts generalizing depth with
  | nil => exact .nil
  | cons t ts ih =>
    cases ts with
    | nil =>
      have alone : spread depth [t] = t.chars ++ ([] ++ []) := (List.append_nil _).symm
      rw [alone]
      exact .cons (fun _ h => absurd h List.not_mem_nil) .nil
    | cons u ts =>
      rw [spread, List.append_assoc]
      exact .cons isBlank_of_mem_gap (ih _)

/-- A value on one line is read back. -/
theorem parse?_compact {v : Json} (plain : v.Plain) : parse? v.compact = some v :=
  parse?_of_layout plain (layout_compact v.tokens)

/-- A value over several lines is read back. -/
theorem parse?_pretty {v : Json} (plain : v.Plain) : parse? v.pretty = some v :=
  parse?_of_layout plain (layout_spread 0 v.tokens)

end WalletHub.Json
