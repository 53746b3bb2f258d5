import Swyft.Js
import Swyft.Lib.Patterns

/-!
# What is redacted in a text

The patterns of `apps/api/src/sentry.ts`, and the texts that `redactSensitiveData` makes of texts. A
place where two parts of a pattern can share characters is matched as the engine does: the first
part takes all it can, and no other way to share them lets the rest match.

Addresses are replaced first. That leaves none, but the nonces that are replaced after them may
begin or end inside a word, and what is left of the word may be an address.

## Main results

* `not_hasAddress_replace` — where addresses are replaced, none is left
* `hasAddress_replace_iff` — with the nonces replaced too, there is one exactly if one stood against
  a nonce
* `hasAddress_redactText_iff` — the other patterns add none, and may take it away again
-/

namespace Swyft.Sentry

open Patterns Js

/-! ### Patterns -/

/-- `\w`. -/
def isWord (c : Char) : Bool := c.isAlphanum || c = '_'

/-- `[A-Z2-7]`. -/
def isBase32 (c : Char) : Bool := c.isUpper || ('2' ≤ c && c ≤ '7')

/-- `G[A-Z2-7]{55}`, from the beginning of the text to its end. -/
def isAddress (b : List Char) : Bool :=
  b.head? = some 'G' && b.length = 56 && b.tail.all isBase32

/-- `\bG[A-Z2-7]{55}\b`. -/
def walletAddressRest (prev : Option Char) (l : List Char) : Option (List Char) :=
  if !prev.any isWord && isAddress (l.take 56) && !(l.drop 56).head?.any isWord then
    some (l.drop 56)
  else none

/-- `["\s]`. -/
def isQuoteOrSpace (c : Char) : Bool := c = '"' || isSpace c

/-- `["\s:=]`. -/
def isNonceGap (c : Char) : Bool := isQuoteOrSpace c || c = ':' || c = '='

/-- `[a-f0-9]`, of either case. -/
def isHex (c : Char) : Bool := c.isDigit || ('a' ≤ c.toLower && c.toLower ≤ 'f')

/-- `[a-zA-Z0-9+/]`. -/
def isBase64 (c : Char) : Bool := c.isAlphanum || c = '+' || c = '/'

/-- A text begins with a name, of either case. -/
def beginsWith (name : String) (l : List Char) : Bool :=
  (l.take name.length).map Char.toLower = name.toList

/-- `nonce["\s:=]*:?["\s]?([a-f0-9]{32,}|[a-zA-Z0-9+/]{40,})`, of either case. -/
def nonceRest (_ : Option Char) (l : List Char) : Option (List Char) :=
  let value := (l.drop 5).dropWhile isNonceGap
  if !beginsWith "nonce" l then none
  else if 32 ≤ (value.takeWhile isHex).length then some (value.dropWhile isHex)
  else if 40 ≤ (value.takeWhile isBase64).length then some (value.dropWhile isBase64)
  else none

/-- `[^\s"]`. -/
def isValue (c : Char) : Bool := !isQuoteOrSpace c

/-- `(["\s]name["\s]*[:=]\s*)[^\s"]+`, of either case. -/
def labelledRest (name : String) (_ : Option Char) : List Char → Option (List Char)
  | [] => none
  | q :: l =>
    if isQuoteOrSpace q && beginsWith name l then
      match (l.drop name.length).dropWhile isQuoteOrSpace with
      | [] => none
      | c :: l =>
        let value := l.dropWhile isSpace
        if (c = ':' || c = '=') && value.head?.any isValue then some (value.dropWhile isValue)
        else none
    else none

variable {s b l r : List Char} {c : Char} {prev : Option Char} {name : String}

theorem exists_match_of_suffix (h : r <:+ l.tail) (hl : l ≠ []) : ∃ m, m ≠ [] ∧ l = m ++ r := by
  obtain ⟨c, l, rfl⟩ := List.exists_cons_of_ne_nil hl
  obtain ⟨m, rfl⟩ := h
  exact ⟨c :: m, List.cons_ne_nil c m, rfl⟩

theorem drop_succ_suffix_tail (n : ℕ) (l : List Char) : l.drop (n + 1) <:+ l.tail := by
  rw [← List.drop_one]
  exact List.drop_suffix_drop_left l (by omega)

theorem walletAddressRest_eq_some : walletAddressRest prev l = some r ↔
    prev.any isWord = false ∧ isAddress (l.take 56) = true ∧
      (l.drop 56).head?.any isWord = false ∧ l.drop 56 = r := by
  rw [walletAddressRest]
  split_ifs with h <;> simp_all

def walletAddress : Pattern Char where
  rest := walletAddressRest
  exists_match h := by
    obtain ⟨-, haddress, -, rfl⟩ := walletAddressRest_eq_some.mp h
    refine exists_match_of_suffix (drop_succ_suffix_tail 55 _) ?_
    rintro rfl
    exact absurd haddress (by decide)

theorem nonceRest_eq_some (h : nonceRest prev l = some r) : l ≠ [] ∧ r <:+ l.drop 5 := by
  simp only [nonceRest] at h
  split_ifs at h with hname
  all_goals
    refine ⟨?_, ?_⟩
    · rintro rfl
      exact absurd hname (by decide)
    · rw [← Option.some.inj h]
      exact (List.dropWhile_suffix _).trans (List.dropWhile_suffix _)

def nonce : Pattern Char where
  rest := nonceRest
  exists_match h :=
    exists_match_of_suffix ((nonceRest_eq_some h).2.trans (drop_succ_suffix_tail 4 _))
      (nonceRest_eq_some h).1

/-- A label begins with a quote or a space, and its value is taken to the next one. -/
theorem labelledRest_eq_some (h : labelledRest name prev l = some r) :
    ∃ q l', l = q :: l' ∧ isQuoteOrSpace q = true ∧ r <:+ l' ∧
      ∀ c ∈ r.head?, isValue c = false := by
  cases l with
  | nil => exact nomatch h
  | cons q l =>
    rw [labelledRest] at h
    split at h
    · rename_i hq
      rw [Bool.and_eq_true] at hq
      split at h
      · exact nomatch h
      · rename_i c rest hrest
        simp only at h
        split_ifs at h
        obtain rfl := Option.some.inj h
        refine ⟨q, l, rfl, hq.1, ?_, ?_⟩
        · have hsuffix : c :: rest <:+ l := by
            rw [← hrest]
            exact (List.dropWhile_suffix _).trans (List.drop_suffix _ _)
          exact (List.dropWhile_suffix _).trans
            ((List.dropWhile_suffix _).trans ((List.suffix_cons c rest).trans hsuffix))
        · intro d hd
          have hnot := List.head?_dropWhile_not isValue (rest.dropWhile isSpace)
          rw [Option.mem_def.mp hd] at hnot
          simpa using hnot
    · exact nomatch h

def labelled (name : String) : Pattern Char where
  rest := labelledRest name
  exists_match h := by
    obtain ⟨q, l, rfl, -, hsuffix, -⟩ := labelledRest_eq_some h
    exact exists_match_of_suffix hsuffix (List.cons_ne_nil q l)

def token : Pattern Char := labelled "token"

def signature : Pattern Char := labelled "signature"

def redacted : List Char := "[REDACTED]".toList

/-- `SENSITIVE_PATTERNS`, in the order of its entries. -/
def sensitivePatterns : List (Pattern Char) := [walletAddress, nonce, token, signature]

/-- What `redactSensitiveData` makes of a text. -/
def redactText (text : List Char) : List Char :=
  sensitivePatterns.foldl (fun text pattern => pattern.replace redacted text) text

/-! ### Addresses that are left -/

/-- A wallet address stands in a text, between word boundaries. -/
def HasAddress (s : List Char) : Prop := Stands isWord (isAddress · = true) s

/-- The text with its addresses and nonces replaced. -/
def withoutNonces (s : List Char) : List Char :=
  nonce.replace redacted (walletAddress.replace redacted s)

/-- An address stands against a nonce: where addresses are replaced, a nonce ends directly in front
of it or begins directly behind it, and on the other side is a nonce or a word boundary. -/
def AgainstNonce (s : List Char) : Prop :=
  ∃ x b y, nonce.scan (walletAddress.replace redacted s) = x ++ b.map some ++ y ∧
    isAddress b = true ∧ Edge isWord x.getLast?.join ∧ Edge isWord y.head?.join ∧
      (x.getLast? = some none ∨ y.head? = some none)

theorem isAddress_iff : isAddress b = true ↔
    ∃ cs, b = 'G' :: cs ∧ cs.length = 55 ∧ ∀ c ∈ cs, isBase32 c = true := by
  simp only [isAddress, Bool.and_eq_true, decide_eq_true_iff, List.all_eq_true, and_assoc]
  constructor
  · rintro ⟨hhead, hlength, hall⟩
    obtain ⟨cs, rfl⟩ := List.head?_eq_some_iff.mp hhead
    exact ⟨cs, rfl, Nat.succ.inj hlength, hall⟩
  · rintro ⟨cs, rfl, hlength, hall⟩
    exact ⟨rfl, congrArg Nat.succ hlength, hall⟩

theorem length_of_isAddress (h : isAddress b = true) : b.length = 56 := by
  obtain ⟨cs, rfl, hlength, -⟩ := isAddress_iff.mp h
  rw [List.length_cons, hlength]

/-- A text with an address in it has a length. -/
theorem le_length_of_hasAddress (h : HasAddress s) : 56 ≤ s.length := by
  obtain ⟨u, b, v, rfl, hb, -, -⟩ := h
  have hlength := length_of_isAddress hb
  rw [List.length_append, List.length_append]
  omega

theorem isWord_iff : isWord c = true ↔
    ((('A'.val ≤ c.val ∧ c.val ≤ 'Z'.val) ∨ ('a'.val ≤ c.val ∧ c.val ≤ 'z'.val)) ∨
      ('0'.val ≤ c.val ∧ c.val ≤ '9'.val)) ∨ c = '_' := by
  have hword : isWord c = (((decide ('A'.val ≤ c.val ∧ c.val ≤ 'Z'.val) ||
      (decide ('a'.val ≤ c.val) && decide (c.val ≤ 'z'.val))) ||
        (decide ('0'.val ≤ c.val) && decide (c.val ≤ '9'.val))) || decide (c = '_')) := rfl
  simp only [hword, Bool.or_eq_true, Bool.and_eq_true, decide_eq_true_iff]

theorem isWord_of_isBase32 (h : isBase32 c = true) : isWord c = true := by
  have hbase32 : isBase32 c = (decide ('A'.val ≤ c.val ∧ c.val ≤ 'Z'.val) ||
      (decide ('2'.val ≤ c.val) && decide (c.val ≤ '7'.val))) := rfl
  simp only [hbase32, Bool.or_eq_true, Bool.and_eq_true, decide_eq_true_iff] at h
  rw [isWord_iff]
  rcases h with h | ⟨h2, h7⟩
  · exact .inl (.inl (.inl h))
  · exact .inl (.inr ⟨UInt32.le_trans (by decide) h2, UInt32.le_trans h7 (by decide)⟩)

theorem isMark_redacted : IsMark isWord redacted where
  ne_nil := by decide
  head := by decide
  last := by decide

theorem isKind_isAddress : IsKind isWord redacted (isAddress · = true) where
  first b h := by
    obtain ⟨cs, rfl, -⟩ := isAddress_iff.mp h
    exact ⟨'G', rfl, by decide⟩
  word b h := by
    obtain ⟨cs, rfl, -, hall⟩ := isAddress_iff.mp h
    intro c hc
    rcases List.mem_cons.mp hc with rfl | hc
    · decide
    · exact isWord_of_isBase32 (hall c hc)

/-! #### The patterns and words -/

theorem walletAddress_respects : walletAddress.Respects isWord where
  start prev l r h := .inl (edge_iff.mpr (walletAddressRest_eq_some.mp h).1)
  finish prev l r h := by
    obtain ⟨-, -, hedge, rfl⟩ := walletAddressRest_eq_some.mp h
    exact edge_iff.mpr hedge

theorem isWord_of_isQuoteOrSpace (h : isQuoteOrSpace c = true) : isWord c = false := by
  rw [isQuoteOrSpace, Bool.or_eq_true, decide_eq_true_iff] at h
  rcases h with rfl | h
  · decide
  have hcode : (9 ≤ c.toNat ∧ c.toNat ≤ 32) ∨ 160 ≤ c.toNat := by
    simp only [isSpace, List.contains_eq_mem, List.mem_cons, List.not_mem_nil, or_false,
      Bool.or_eq_true, decide_eq_true_iff, Bool.and_eq_true] at h
    omega
  by_contra hword
  rw [Bool.not_eq_false, isWord_iff] at hword
  simp only [UInt32.le_iff_toNat_le] at hword
  rcases hword with hword | rfl
  · have hval : c.toNat = c.val.toNat := rfl
    have hA : 'A'.val.toNat = 65 := rfl
    have hz : 'z'.val.toNat = 122 := rfl
    have ha : 'a'.val.toNat = 97 := rfl
    have h0 : '0'.val.toNat = 48 := rfl
    have hZ : 'Z'.val.toNat = 90 := rfl
    have h9 : '9'.val.toNat = 57 := rfl
    omega
  · exact absurd hcode (by decide)

theorem labelled_respects (name : String) : (labelled name).Respects isWord where
  start prev l r h := by
    have h : labelledRest name prev l = some r := h
    obtain ⟨q, l, rfl, hq, -⟩ := labelledRest_eq_some h
    refine .inr ?_
    rintro c ⟨⟩
    exact isWord_of_isQuoteOrSpace hq
  finish prev l r h := by
    have h : labelledRest name prev l = some r := h
    obtain ⟨-, -, -, -, -, hend⟩ := labelledRest_eq_some h
    intro c hc
    exact isWord_of_isQuoteOrSpace (by simpa [isValue] using hend c hc)

/-- **Where addresses are replaced, none is left.** -/
theorem not_hasAddress_replace (s : List Char) :
    ¬ HasAddress (walletAddress.replace redacted s) := by
  intro h
  obtain ⟨u, b, v, -, hb, hu, hv, hnone⟩ := stands_of_between walletAddress_respects
    isKind_isAddress (scanned_scan _ _) ((stands_expand_iff isMark_redacted isKind_isAddress).mp h)
  have hmatch : walletAddressRest u.getLast? (b ++ v) = some v := by
    have hlength := length_of_isAddress hb
    rw [walletAddressRest_eq_some, ← hlength, List.take_left, List.drop_left]
    exact ⟨edge_iff.mp hu, hb, edge_iff.mp hv, rfl⟩
  exact absurd (hnone.symm.trans hmatch) nofun

/-- **The other patterns leave no new addresses.** -/
theorem hasAddress_of_labelled (name : String)
    (h : HasAddress ((labelled name).replace redacted s)) : HasAddress s := by
  obtain ⟨u, b, v, rfl, hb, hu, hv, -⟩ := stands_of_between (labelled_respects name)
    isKind_isAddress (scanned_scan _ _) ((stands_expand_iff isMark_redacted isKind_isAddress).mp h)
  exact ⟨u, b, v, rfl, hb, hu, hv⟩

/-- **With the nonces replaced too**, there is an address exactly if one stood against a nonce. -/
theorem hasAddress_withoutNonces_iff : HasAddress (withoutNonces s) ↔ AgainstNonce s := by
  refine (stands_expand_iff isMark_redacted isKind_isAddress).trans ⟨?_, ?_⟩
  · rintro ⟨x, b, y, hscan, hb, hx, hy⟩
    refine ⟨x, b, y, hscan, hb, hx, hy, ?_⟩
    have hscanned := scanned_scan nonce (walletAddress.replace redacted s)
    rw [hscan] at hscanned
    exact (beside_gap_or_stands hscanned hb hx hy).resolve_right (not_hasAddress_replace s)
  · rintro ⟨x, b, y, hscan, hb, hx, hy, -⟩
    exact ⟨x, b, y, hscan, hb, hx, hy⟩

theorem redactText_eq (s : List Char) :
    redactText s = (labelled "signature").replace redacted
      ((labelled "token").replace redacted (withoutNonces s)) := by
  simp only [redactText, sensitivePatterns, List.foldl_cons, List.foldl_nil, withoutNonces, token,
    signature]

/-- An address escapes from a text: it stands against a nonce, and when tokens are replaced too,
there is an address outside of the signatures. -/
def Escapes (s : List Char) : Prop :=
  AgainstNonce s ∧ StandsBetween isWord (isAddress · = true)
    (signature.scan (token.replace redacted (withoutNonces s)))

/-- **An address is left in a text** exactly if one escapes from it. -/
theorem hasAddress_redactText_iff : HasAddress (redactText s) ↔ Escapes s := by
  rw [redactText_eq]
  have hlast : HasAddress ((labelled "signature").replace redacted
      ((labelled "token").replace redacted (withoutNonces s))) ↔ StandsBetween isWord
        (isAddress · = true) (signature.scan (token.replace redacted (withoutNonces s))) :=
    stands_expand_iff isMark_redacted isKind_isAddress
  refine ⟨fun h => ⟨?_, hlast.mp h⟩, fun h => hlast.mpr h.2⟩
  have htoken := hasAddress_of_labelled "signature" h
  exact hasAddress_withoutNonces_iff.mp (hasAddress_of_labelled "token" htoken)

/-- Where neither a token nor a signature is matched after the nonces, every address that stands
against a nonce escapes. -/
theorem escapes_of_againstNonce (h : AgainstNonce s)
    (htoken : token.scan (withoutNonces s) = (withoutNonces s).map some)
    (hsignature : signature.scan (withoutNonces s) = (withoutNonces s).map some) : Escapes s := by
  rw [← hasAddress_redactText_iff, redactText_eq]
  have htoken' : (labelled "token").replace redacted (withoutNonces s) = withoutNonces s :=
    replace_eq_self htoken
  have hsignature' : (labelled "signature").replace redacted (withoutNonces s) = withoutNonces s :=
    replace_eq_self hsignature
  rw [htoken', hsignature']
  exact hasAddress_withoutNonces_iff.mpr h

end Swyft.Sentry
