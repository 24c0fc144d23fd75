import Dabba.Dabbad.CpuList
import Mathlib.Data.Nat.ModEq

/-!
# The tokens of a CPU list

A token is written `a`, `a-b` or `a-b:s`, in decimal with any number of leading
zeros. The parser keeps no boundaries between the tokens. It looks for a separator
in the whole rest of the string, and compares pointers to see whether the separator
belongs to the token. A list of tokens is therefore read token by token, and the
result is the union of what the tokens stand for.
-/

namespace Dabbad

open Posix Stdio

/-- A decimal number as it is written, leading zeros included. -/
structure Decimal where
  digits : List Byte
  ne_nil : digits ≠ []
  isDigit : ∀ c ∈ digits, (digit? 10 c).isSome = true

def Decimal.value (d : Decimal) : ℕ := (scanDigits 10 0 d.digits).1

def Decimal.ofNat (n : ℕ) : Decimal where
  digits := numeral 10 n
  ne_nil := numeral_ne_nil 10 n
  isDigit := fun _ hc => isSome_digit?_of_mem_numeral (by decide) (by decide) hc

@[simp] theorem Decimal.value_ofNat (n : ℕ) : (ofNat n).value = n := by
  have hread := scanDigits_numeral (b := 10) (by decide) (by decide) n (noDigit_nil 10)
  rw [List.append_nil] at hread
  rw [value, ofNat, hread]

/-- A token of a CPU list. -/
inductive Token where
  | one (a : Decimal)
  | range (a b : Decimal)
  | stride (a b s : Decimal)

namespace Token

def text : Token → List Byte
  | one a => a.digits
  | range a b => a.digits ++ ascii '-' :: b.digits
  | stride a b s => a.digits ++ ascii '-' :: (b.digits ++ ascii ':' :: s.digits)

def first : Token → ℕ
  | one a => a.value
  | range a _ => a.value
  | stride a _ _ => a.value

def last : Token → ℕ
  | one a => a.value
  | range _ b => b.value
  | stride _ b _ => b.value

def step : Token → ℕ
  | one _ => 1
  | range _ _ => 1
  | stride _ _ s => s.value

def values (t : Token) : BitVec 32 × BitVec 32 × BitVec 32 :=
  (strtoul false t.first, strtoul false t.last, strtoul false t.step)

/-- The numbers of a token are in order, and the stride does not lead beyond the
largest number. -/
def WellFormed (t : Token) : Prop :=
  t.first ≤ t.last ∧ 1 ≤ t.step ∧ t.last + t.step < 2 ^ 32

/-- The CPUs a token stands for. -/
def Covers (t : Token) (c : ℕ) : Prop :=
  t.first ≤ c ∧ c ≤ t.last ∧ c ≡ t.first [MOD t.step]

end Token

def tokensText : List Token → List Byte
  | [] => []
  | [t] => t.text
  | t :: t' :: ts => t.text ++ ascii ',' :: tokensText (t' :: ts)

/-- The pointer to a list, which is null behind the last token. -/
def tokensStart (ts : List Token) : Option (List Byte) :=
  if ts = [] then none else some (tokensText ts)

def Tail (t : List Byte) : Prop :=
  t = [] ∨ ∃ rest, t = ascii ',' :: rest

theorem not_before_tail {t : List Byte} (ht : Tail t) {sep : Byte}
    (hsep : sep ≠ ascii ',') :
    before (nexttoken (some t) sep) (nexttoken (some t) (ascii ',')) = false := by
  rcases ht with rfl | ⟨rest, rfl⟩
  · rfl
  · rw [nexttoken_cons, nexttoken_cons_of_ne hsep]
    cases hq : nexttoken (some rest) sep with
    | none => rfl
    | some q =>
        have hlt := length_lt_of_nexttoken hq
        exact decide_eq_false (by omega)

theorem before_tail {t : List Byte} (ht : Tail t) (s : List Byte) :
    before (some (s ++ t)) (nexttoken (some t) (ascii ',')) = true := by
  rcases ht with rfl | ⟨rest, rfl⟩
  · rfl
  · rw [nexttoken_cons]
    refine decide_eq_true ?_
    rw [List.length_append, List.length_cons]
    omega

theorem Tail.atEnd {t : List Byte} (ht : Tail t) : AtEnd t := by
  rcases ht with rfl | ⟨rest, rfl⟩
  · exact atEnd_nil
  · exact atEnd_cons (by decide) rest

theorem scanUnsigned_digits (d : Decimal) {s : List Byte} (hs : AtEnd s) :
    scanUnsigned (d.digits ++ s) = some (strtoul false d.value) := by
  have hfield : scanField .u none (d.digits ++ s) =
      some (strtoul false d.value, s) := by
    have hdigits : ∀ c ∈ d.digits, (digit? Conversion.u.base c).isSome = true := d.isDigit
    rw [scanField, dropWhile_isspace_digits d.ne_nil hdigits]
    refine scanNumber_digits d.ne_nil hdigits hs ?_
    exact (scanDigits_append d.isDigit 0 s).trans (scanDigits_of_noDigit (hs.noDigit 10) _)
  rw [scanUnsigned, scan_number [] hfield]
  rfl

theorem notMem_digits {sep : Byte} (hsep : digit? 10 sep = none) (d : Decimal) :
    sep ∉ d.digits := by
  intro h
  have hdigit := d.isDigit sep h
  rw [hsep] at hdigit
  cases hdigit

/-- A token is read as it was written. -/
theorem parseToken_text (tok : Token) {t : List Byte} (ht : Tail t) :
    parseToken (tok.text ++ t) = some tok.values := by
  have hdash : digit? 10 (ascii '-') = none := by decide
  have hcolon : digit? 10 (ascii ':') = none := by decide
  have hcomma : digit? 10 (ascii ',') = none := by decide
  have hdash' : ∀ s, AtEnd (ascii '-' :: s) := atEnd_cons (by decide)
  have hcolon' : ∀ s, AtEnd (ascii ':' :: s) := atEnd_cons (by decide)
  cases tok with
  | one a =>
      have hc1 := nexttoken_append (notMem_digits hdash a) t
      have hc2 := nexttoken_append (notMem_digits hcomma a) t
      have hbefore := not_before_tail ht (by decide : ascii '-' ≠ ascii ',')
      simp only [parseToken, Token.text, scanUnsigned_digits a ht.atEnd, hc1, hc2,
        hbefore, Token.values, Token.first, Token.last, Token.step]
      rfl
  | range a b =>
      have htext : (Token.range a b).text ++ t =
          a.digits ++ ascii '-' :: (b.digits ++ t) := by
        rw [Token.text, List.append_assoc, List.cons_append]
      have hc1 : nexttoken (some (a.digits ++ ascii '-' :: (b.digits ++ t)))
          (ascii '-') = some (b.digits ++ t) := by
        rw [nexttoken_append (notMem_digits hdash a), nexttoken_cons]
      have hc2 : nexttoken (some (a.digits ++ ascii '-' :: (b.digits ++ t)))
          (ascii ',') = nexttoken (some t) (ascii ',') := by
        rw [nexttoken_append (notMem_digits hcomma a),
          nexttoken_cons_of_ne (by decide), nexttoken_append (notMem_digits hcomma b)]
      have hc3 := nexttoken_append (notMem_digits hcolon b) t
      simp only [htext, parseToken, scanUnsigned_digits a (hdash' _), hc1, hc2,
        before_tail ht, if_true, Option.bind_some, scanUnsigned_digits b ht.atEnd, hc3,
        not_before_tail ht (by decide : ascii ':' ≠ ascii ','), Token.values, Token.first,
        Token.last, Token.step]
      rfl
  | stride a b s =>
      have htext : (Token.stride a b s).text ++ t =
          a.digits ++ ascii '-' :: (b.digits ++ ascii ':' ::
            (s.digits ++ t)) := by
        rw [Token.text, List.append_assoc, List.cons_append, List.append_assoc,
          List.cons_append]
      have hc1 : nexttoken (some (a.digits ++ ascii '-' :: (b.digits ++
          ascii ':' :: (s.digits ++ t)))) (ascii '-') =
          some ((b.digits ++ ascii ':' :: s.digits) ++ t) := by
        rw [nexttoken_append (notMem_digits hdash a), nexttoken_cons, List.append_assoc,
          List.cons_append]
      have hc2 : nexttoken (some (a.digits ++ ascii '-' :: (b.digits ++
          ascii ':' :: (s.digits ++ t)))) (ascii ',') =
          nexttoken (some t) (ascii ',') := by
        rw [nexttoken_append (notMem_digits hcomma a),
          nexttoken_cons_of_ne (by decide), nexttoken_append (notMem_digits hcomma b),
          nexttoken_cons_of_ne (by decide), nexttoken_append (notMem_digits hcomma s)]
      have hb : scanUnsigned ((b.digits ++ ascii ':' :: s.digits) ++ t) =
          some (strtoul false b.value) := by
        rw [List.append_assoc, List.cons_append, scanUnsigned_digits b (hcolon' _)]
      have hc3 : nexttoken (some ((b.digits ++ ascii ':' :: s.digits) ++ t))
          (ascii ':') = some (s.digits ++ t) := by
        rw [List.append_assoc, List.cons_append,
          nexttoken_append (notMem_digits hcolon b), nexttoken_cons]
      simp only [htext, parseToken, scanUnsigned_digits a (hdash' _), hc1, hc2,
        before_tail ht, if_true, Option.bind_some, hb, hc3,
        scanUnsigned_digits s ht.atEnd, Token.values, Token.first, Token.last, Token.step]
      rfl

theorem notMem_text {c : Byte} (hdigit : digit? 10 c = none) (hdash : c ≠ ascii '-')
    (hcolon : c ≠ ascii ':') (tok : Token) : c ∉ tok.text := by
  have hdigits := notMem_digits hdigit
  cases tok <;> simp [Token.text, hdigits, hdash, hcolon]

theorem comma_notMem_text (tok : Token) : ascii ',' ∉ tok.text :=
  notMem_text (by decide) (by decide) (by decide) tok

theorem null_notMem_tokensText (ts : List Token) : (0 : Byte) ∉ tokensText ts := by
  have htext : ∀ tok : Token, (0 : Byte) ∉ tok.text :=
    notMem_text (by decide) (by decide) (by decide)
  induction ts with
  | nil => exact List.not_mem_nil
  | cons tok ts ih =>
      cases ts with
      | nil => exact htext tok
      | cons tok' ts =>
          rw [tokensText, List.mem_append, List.mem_cons]
          rintro (h | h | h)
          · exact htext tok h
          · exact absurd h (by decide)
          · exact ih h

theorem nexttoken_tokensText (tok : Token) (ts : List Token) :
    nexttoken (some (tokensText (tok :: ts))) (ascii ',') = tokensStart ts := by
  cases ts with
  | nil =>
      have happend := nexttoken_append (comma_notMem_text tok) []
      rw [List.append_nil] at happend
      rw [show tokensText [tok] = tok.text from rfl, happend]
      rfl
  | cons tok' ts =>
      rw [tokensText, nexttoken_append (comma_notMem_text tok), nexttoken_cons,
        tokensStart, if_neg (by simp)]

theorem parseToken_tokensText (tok : Token) (ts : List Token) :
    parseToken (tokensText (tok :: ts)) = some tok.values := by
  cases ts with
  | nil =>
      have htext := parseToken_text tok (.inl rfl)
      rwa [List.append_nil] at htext
  | cons tok' ts => exact parseToken_text tok (.inr ⟨tokensText (tok' :: ts), rfl⟩)

theorem tokenLoop_tokensStart {n : ℕ} (fuel : ℕ) (tok : Token) (ts : List Token)
    (mask : CpuSet n) :
    tokenLoop (fuel + 1) (tokensStart (tok :: ts)) mask =
      if tok.values.1 ≤ tok.values.2.1 then
        (rangeLoop tok.values.2.1 tok.values.2.2 fuel tok.values.1 mask).bind
          (tokenLoop fuel (tokensStart ts))
      else some (-einval, mask) := by
  rw [tokensStart, if_neg (by simp), tokenLoop, parseToken_tokensText,
    nexttoken_tokensText]
  rfl

theorem tokenLoop_of_bounded {n : ℕ} {ts : List Token}
    (hts : ∀ tok ∈ ts, Bounded tok.values) (mask : CpuSet n) :
    ∃ fuel m, tokenLoop fuel (tokensStart ts) mask = some (0, m) ∧
      ∀ d, m.getLsbD d = true ↔
        mask.getLsbD d = true ∨ d < n ∧ ∃ tok ∈ ts, InRange tok.values d := by
  induction ts generalizing mask with
  | nil => exact ⟨1, mask, rfl, fun d => by simp⟩
  | cons tok ts ih =>
      obtain ⟨hab, hs, hb⟩ := hts tok (by simp)
      obtain ⟨m, hm, hbits⟩ := rangeLoop_of_lt hs hb (a := tok.values.1) mask
        (Nat.succ_pos (tok.values.2.1.toNat + 1)) (by omega)
      obtain ⟨fuel, m', hm', hbits'⟩ :=
        ih (fun tok' htok' => hts tok' (List.mem_cons_of_mem _ htok')) m
      refine ⟨max (tok.values.2.1.toNat + 2) fuel + 1, m', ?_, fun d => ?_⟩
      · rw [tokenLoop_tokensStart, if_pos hab, rangeLoop_mono (le_max_left _ _) hm]
        exact tokenLoop_mono (le_max_right _ _) hm'
      · rw [hbits', hbits, List.exists_mem_cons_iff, and_or_left, or_assoc]

/-- Every token of a list that is read without an error has its beginning in front
of its end, and ends below the largest number. -/
theorem of_tokenLoop_tokensStart {n : ℕ} {ts : List Token} {fuel : ℕ}
    {mask m : CpuSet n} (h : tokenLoop fuel (tokensStart ts) mask = some (0, m)) :
    ∀ tok ∈ ts, tok.values.1 ≤ tok.values.2.1 ∧
      tok.values.2.1.toNat + 1 < 2 ^ 32 := by
  induction ts generalizing fuel mask with
  | nil => simp
  | cons tok ts ih =>
      cases fuel with
      | zero => cases h
      | succ fuel =>
          rw [tokenLoop_tokensStart] at h
          split at h
          · rename_i hab
            obtain ⟨m', hm', hrest⟩ := Option.bind_eq_some_iff.1 h
            have hb : tok.values.2.1.toNat + 1 < 2 ^ 32 := by
              have hlt := tok.values.2.1.isLt
              by_contra hnot
              rw [rangeLoop_allOnes (by omega)] at hm'
              cases hm'
            intro tok' htok'
            rcases List.mem_cons.1 htok' with rfl | htok'
            · exact ⟨hab, hb⟩
            · exact ih hrest tok' htok'
          · simp at h

section Entries

inductive Entry where
  | one (a : ℕ)
  | range (a b : ℕ)
  | stride (a b s : ℕ)
deriving DecidableEq, Repr

/-- The text of an entry, `a`, `a-b` or `a-b:s`. -/
def Entry.text : Entry → List Byte
  | .one a => numeral 10 a
  | .range a b => numeral 10 a ++ ascii '-' :: numeral 10 b
  | .stride a b s =>
      numeral 10 a ++ ascii '-' :: (numeral 10 b ++ ascii ':' :: numeral 10 s)

def Entry.values : Entry → BitVec 32 × BitVec 32 × BitVec 32
  | .one a => (strtoul false a, strtoul false a, 1)
  | .range a b => (strtoul false a, strtoul false b, 1)
  | .stride a b s => (strtoul false a, strtoul false b, strtoul false s)

def listText : List Entry → List Byte
  | [] => []
  | [e] => e.text
  | e :: e' :: es => e.text ++ ascii ',' :: listText (e' :: es)

/-- The pointer to a list, which is null behind the last entry. -/
def listStart (es : List Entry) : Option (List Byte) :=
  if es = [] then none else some (listText es)

/-- An entry as a token, its numbers without leading zeros. -/
def Entry.token : Entry → Token
  | .one a => .one (.ofNat a)
  | .range a b => .range (.ofNat a) (.ofNat b)
  | .stride a b s => .stride (.ofNat a) (.ofNat b) (.ofNat s)

theorem Entry.text_eq (e : Entry) : e.text = e.token.text := by
  cases e <;> rfl

theorem Entry.values_eq (e : Entry) : e.values = e.token.values := by
  have hone : strtoul false 1 = 1 := by decide
  cases e <;>
    simp [values, token, Token.values, Token.first, Token.last, Token.step, hone]

theorem listText_eq (es : List Entry) :
    listText es = tokensText (es.map Entry.token) := by
  induction es with
  | nil => rfl
  | cons e es ih =>
      cases es with
      | nil => exact e.text_eq
      | cons e' es =>
          rw [listText, ih, e.text_eq]
          rfl

theorem listStart_eq (es : List Entry) :
    listStart es = tokensStart (es.map Entry.token) := by
  rw [listStart, tokensStart, listText_eq]
  simp only [List.map_eq_nil_iff]

theorem tokenLoop_listStart_of_bounded {n : ℕ} {es : List Entry}
    (hes : ∀ e ∈ es, Bounded e.values) (mask : CpuSet n) :
    ∃ fuel m, tokenLoop fuel (listStart es) mask = some (0, m) ∧
      ∀ d, m.getLsbD d = true ↔
        mask.getLsbD d = true ∨ d < n ∧ ∃ e ∈ es, InRange e.values d := by
  have hts : ∀ tok ∈ es.map Entry.token, Bounded tok.values := by
    rw [List.forall_mem_map]
    exact fun e he => e.values_eq ▸ hes e he
  obtain ⟨fuel, m, hm, hbits⟩ := tokenLoop_of_bounded hts mask
  refine ⟨fuel, m, listStart_eq es ▸ hm, fun d => ?_⟩
  rw [hbits]
  simp [Entry.values_eq]

theorem of_tokenLoop_listStart {n : ℕ} {es : List Entry} {fuel : ℕ}
    {mask m : CpuSet n} (h : tokenLoop fuel (listStart es) mask = some (0, m)) :
    ∀ e ∈ es, e.values.1 ≤ e.values.2.1 ∧ e.values.2.1.toNat + 1 < 2 ^ 32 := by
  rw [listStart_eq] at h
  intro e he
  rw [e.values_eq]
  exact of_tokenLoop_tokensStart h e.token (List.mem_map_of_mem he)

end Entries

section Meaning

variable {tok : Token}

theorem toNat_strtoul_false {a : ℕ} (ha : a < 2 ^ 32) : (strtoul false a).toNat = a := by
  rw [strtoul_false (by omega), BitVec.toNat_ofNat]
  exact Nat.mod_eq_of_lt ha

theorem Token.WellFormed.values (h : tok.WellFormed) :
    tok.values.1.toNat = tok.first ∧ tok.values.2.1.toNat = tok.last ∧
      tok.values.2.2.toNat = tok.step := by
  obtain ⟨hab, hs, hb⟩ := h
  exact ⟨toNat_strtoul_false (by omega), toNat_strtoul_false (by omega),
    toNat_strtoul_false (by omega)⟩

theorem Token.WellFormed.bounded (h : tok.WellFormed) : Bounded tok.values := by
  obtain ⟨hfirst, hlast, hstep⟩ := h.values
  obtain ⟨hab, hs, hb⟩ := h
  rw [Bounded, BitVec.le_def, hfirst, hlast, hstep]
  exact ⟨hab, hs, hb⟩

theorem Token.WellFormed.inRange_iff (h : tok.WellFormed) (c : ℕ) :
    InRange tok.values c ↔ tok.Covers c := by
  obtain ⟨hfirst, hlast, hstep⟩ := h.values
  rw [InRange, hfirst, hlast, hstep, Covers]
  refine and_congr_right fun hac => and_congr_right fun _ => ?_
  rw [Nat.ModEq.comm, Nat.modEq_iff_dvd' hac]

/-- A list of well-formed tokens is read without an error, as the set of the CPUs
that one of its tokens stands for. -/
theorem str2cpuAffinity_tokensText (n : ℕ) {ts : List Token} (hne : ts ≠ [])
    (hts : ∀ tok ∈ ts, tok.WellFormed) (post : List Byte) :
    ∃ fuel mask, str2cpuAffinity n fuel (tokensText ts ++ 0 :: post) = some (0, mask) ∧
      ∀ c, mask.getLsbD c = true ↔ c < n ∧ ∃ tok ∈ ts, tok.Covers c := by
  have hstring := cstring_append_null (null_notMem_tokensText ts) post
  have hstart : some (tokensText ts) = tokensStart ts := by
    rw [tokensStart, if_neg hne]
  obtain ⟨fuel, mask, hloop, hbits⟩ :=
    tokenLoop_of_bounded (fun tok htok => (hts tok htok).bounded) (0 : CpuSet n)
  refine ⟨fuel, mask, ?_, fun c => ?_⟩
  · rw [str2cpuAffinity, hstring, hstart, hloop]
  · rw [hbits]
    have hcovers : (∃ tok ∈ ts, InRange tok.values c) ↔ ∃ tok ∈ ts, tok.Covers c :=
      exists_congr fun tok => and_congr_right fun htok => (hts tok htok).inRange_iff c
    simp [hcovers]

def sampleTokens : List Token :=
  [.one (.ofNat 3), .stride (.ofNat 0) (.ofNat 6) (.ofNat 2)]

theorem str2cpuAffinity_tokensText_sampleTokens :
    ∃ fuel mask, str2cpuAffinity 1024 fuel (tokensText sampleTokens ++ 0 :: []) =
        some (0, mask) ∧
      ∀ c, mask.getLsbD c = true ↔ c < 1024 ∧ ∃ tok ∈ sampleTokens, tok.Covers c := by
  refine str2cpuAffinity_tokensText 1024 (List.cons_ne_nil _ _) ?_ []
  intro tok htok
  rcases List.mem_pair.1 htok with rfl | rfl <;>
    simp [Token.WellFormed, Token.first, Token.last, Token.step]

end Meaning

end Dabbad
