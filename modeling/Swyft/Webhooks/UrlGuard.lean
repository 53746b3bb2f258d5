import Swyft.JsNumber
import Swyft.Lib.Addresses

/-!
# Which addresses a webhook may not reach

`isBlockedIp` of `apps/api/src/webhooks/webhook-url-guard.ts`. Of an IPv4 address it looks at the
first two parts, as numbers; of an IPv6 address at the first characters of its text, in lower case.
An IPv4 address has one spelling. An IPv6 address has many, and its ranges do not end where the
characters do.

`isIP` is a function of the platform: it is given by the texts it accepts.

## Main definitions

* `isIP`, `isBlockedIp` — the functions
* `Blocked` — the ranges that are to be blocked, by the number of the address
* `Misjudged` — the texts of which the number is judged wrongly

## Main results

* `isBlockedIp_v4_iff` — of an IPv4 address the verdict is right
* `isBlockedIp_right_iff` — of which texts it is
* `mapped_metadata_address_not_blocked` — addresses of the blocked ranges that are let through
-/

namespace Swyft.Webhooks

open Js Addresses

/-! ### The source functions -/

inductive Address where
  | v4 (n : ℕ)
  | v6 (n : ℕ)
  deriving DecidableEq, Repr

/-- The address that a text stands for. -/
def address (text : String) : Option Address :=
  match Addresses.v4 text.toList with
  | some n => some (.v4 n)
  | none => (Addresses.v6 text.toList).map .v6

/-- `isIP`. -/
def isIP (text : String) : ℕ :=
  match address text with
  | some (.v4 _) => 4
  | some (.v6 _) => 6
  | none => 0

/-- `text.toLowerCase()`, of the texts of addresses, which are in ASCII. -/
def lower (text : String) : List Char := text.toList.map Char.toLower

/-- `lo <= x && x <= hi`. -/
def between (lo hi : ℚ) : Number → Bool
  | .finite q => lo ≤ q && q ≤ hi
  | _ => false

/-- `isBlockedIp`. -/
def isBlockedIp (ip : String) : Bool :=
  if isIP ip = 4 then
    let parts := (ip.toList.splitOn '.').map fun part => toNumber (String.ofList part)
    let a := parts.getD 0 .nan
    let b := parts.getD 1 .nan
    a = .finite 127 || a = .finite 10 || a = .finite 0 || (a = .finite 169 && b = .finite 254) ||
      (a = .finite 172 && between 16 31 b) || (a = .finite 192 && b = .finite 168)
  else if isIP ip = 6 then
    lower ip = "::1".toList || "fe80:".toList.isPrefixOf (lower ip) ||
      "fc".toList.isPrefixOf (lower ip) || "fd".toList.isPrefixOf (lower ip)
  else false

/-! ### The ranges -/

/-- Loopback, "this" network, link-local and private addresses. -/
def BlockedV4 (n : ℕ) : Prop :=
  InPrefix 32 8 (127 * 2 ^ 24) n ∨ InPrefix 32 8 0 n ∨
    InPrefix 32 16 (169 * 2 ^ 24 + 254 * 2 ^ 16) n ∨ InPrefix 32 8 (10 * 2 ^ 24) n ∨
    InPrefix 32 12 (172 * 2 ^ 24 + 16 * 2 ^ 16) n ∨ InPrefix 32 16 (192 * 2 ^ 24 + 168 * 2 ^ 16) n

instance (n : ℕ) : Decidable (BlockedV4 n) :=
  inferInstanceAs (Decidable (_ ∨ _ ∨ _ ∨ _ ∨ _ ∨ _))

/-- `::ffff:0:0/96` of a blocked address. -/
def MappedBlocked (n : ℕ) : Prop :=
  InPrefix 128 96 (0xffff * 2 ^ 32) n ∧ BlockedV4 (n % 2 ^ 32)

instance (n : ℕ) : Decidable (MappedBlocked n) := inferInstanceAs (Decidable (_ ∧ _))

/-- Loopback, unspecified, link-local and unique local addresses, and those mapped from IPv4. -/
def BlockedV6 (n : ℕ) : Prop :=
  n = 1 ∨ n = 0 ∨ InPrefix 128 10 (0xfe80 * 2 ^ 112) n ∨ InPrefix 128 7 (0xfc00 * 2 ^ 112) n ∨
    MappedBlocked n

instance (n : ℕ) : Decidable (BlockedV6 n) := inferInstanceAs (Decidable (_ ∨ _ ∨ _ ∨ _ ∨ _))

/-- The addresses that are to be blocked. -/
def Blocked : Address → Prop
  | .v4 n => BlockedV4 n
  | .v6 n => BlockedV6 n

instance : (a : Address) → Decidable (Blocked a)
  | .v4 n => inferInstanceAs (Decidable (BlockedV4 n))
  | .v6 n => inferInstanceAs (Decidable (BlockedV6 n))

/-- The text begins with `fc` or `fd`. -/
def BeginsUnique (text : String) : Prop :=
  "fc".toList.isPrefixOf (lower text) ∨ "fd".toList.isPrefixOf (lower text)

instance (text : String) : Decidable (BeginsUnique text) := inferInstanceAs (Decidable (_ ∨ _))

/-- The texts of which the number is judged wrongly: the unspecified address; loopback in another
spelling than `::1`; the part of `fe80::/10` outside of `fe80::/16`; what is mapped from a blocked
address; and, the other way round, a first group of fewer than four digits that begins with `fc` or
`fd`. -/
def Misjudged (text : String) : Address → Prop
  | .v4 _ => False
  | .v6 n =>
    n = 0 ∨ (n = 1 ∧ lower text ≠ "::1".toList) ∨
      (InPrefix 128 10 (0xfe80 * 2 ^ 112) n ∧ ¬ InPrefix 128 16 (0xfe80 * 2 ^ 112) n) ∨
      MappedBlocked n ∨ (n < 2 ^ 124 ∧ BeginsUnique text)

instance (text : String) : (a : Address) → Decidable (Misjudged text a)
  | .v4 _ => instDecidableFalse
  | .v6 _ => inferInstanceAs (Decidable (_ ∨ _ ∨ _ ∨ _ ∨ _))

variable {text : String} {n : ℕ}

/-! ### IPv4 -/

theorem toNumber_of_octet {p : List Char} (h : octet p = some n) :
    toNumber (String.ofList p) = .finite n := by
  obtain ⟨hdigits, rfl, hlt⟩ := octet_eq_some h
  exact toNumber_of_allDigits hdigits (hlt.trans (by decide))

theorem address_v4 (h : address text = some (.v4 n)) : Addresses.v4 text.toList = some n := by
  rw [address] at h
  split at h
  case h_1 m hm =>
    cases h
    exact hm
  case h_2 =>
    obtain ⟨_, -, hv6⟩ := Option.map_eq_some_iff.mp h
    cases hv6

/-- **Of an IPv4 address the verdict is right.** -/
theorem isBlockedIp_v4_iff (h : address text = some (.v4 n)) :
    isBlockedIp text = true ↔ BlockedV4 n := by
  obtain ⟨a, b, c, d, hparts, ⟨ha, hb, hc, hd⟩, hn⟩ := v4_eq_some (address_v4 h)
  have hisIP : isIP text = 4 := by rw [isIP, h]
  have hnumbers := map_of_mapM (k := fun n : ℕ => Number.finite n)
    (fun _ _ hp => toNumber_of_octet hp) hparts
  -- the first part, four bits more, and the first two parts
  have h8 : n / 2 ^ (32 - 8) = a := by omega
  have h12 : n / 2 ^ (32 - 12) = a * 16 + b / 16 := by omega
  have h16 : n / 2 ^ (32 - 16) = a * 256 + b := by omega
  clear hn
  rw [isBlockedIp, if_pos hisIP, hnumbers]
  simp only [List.map_cons, List.getD_cons_zero, List.getD_cons_succ, Bool.or_eq_true,
    Bool.and_eq_true, decide_eq_true_eq, Number.finite.injEq, between, BlockedV4, InPrefix, h8,
    h12, h16]
  norm_cast
  omega

/-! ### IPv6 -/

theorem address_v6 (h : address text = some (.v6 n)) : Addresses.v6 text.toList = some n := by
  rw [address] at h
  split at h
  case h_1 => cases h
  case h_2 =>
    obtain ⟨_, hv6, heq⟩ := Option.map_eq_some_iff.mp h
    cases heq
    exact hv6

/-- A character before the letters is the lower case of itself only. -/
theorem eq_of_toLower {c d : Char} (h : c.toLower = d) (hd : d.toNat < 97) : c = d := by
  delta Char.toLower at h
  split at h
  case isTrue hupper =>
    have hlow : 65 ≤ c.val.toNat := hupper.1
    have hhigh : c.val.toNat ≤ 90 := hupper.2
    have hsum : (c.val + ('a'.val - 'A'.val)).toNat = d.val.toNat := by rw [← h]
    rw [UInt32.toNat_add, show ('a'.val - 'A'.val).toNat = 32 from rfl,
      Nat.mod_eq_of_lt (by omega)] at hsum
    have hd : d.val.toNat < 97 := hd
    omega
  case isFalse => exact h

theorem eq_of_map_toLower {cs ds : List Char} (h : cs.map Char.toLower = ds)
    (hds : ∀ d ∈ ds, d.toNat < 97) : cs = ds := by
  subst h
  have hself : cs.map id = cs.map Char.toLower :=
    List.map_congr_left fun c hc => eq_of_toLower rfl (hds _ (List.mem_map_of_mem hc))
  rwa [List.map_id] at hself

/-- Loopback, as the source has it. -/
theorem eq_one_of_lower (h : lower text = "::1".toList)
    (hv6 : Addresses.v6 text.toList = some n) : n = 1 := by
  have hlow : ∀ d ∈ [':', ':', '1'], d.toNat < 97 := by
    simp [Char.reduceToNat]
  rw [eq_of_map_toLower h hlow] at hv6
  exact (Option.some.inj hv6).symm

theorem digitChar_beq {d e : ℕ} (hd : d < 16) (he : e < 16) :
    (Nat.digitChar d == Nat.digitChar e) = true ↔ d = e := by
  have hall : ∀ d < 16, ∀ e < 16, (Nat.digitChar d == Nat.digitChar e) = true ↔ d = e := by decide
  exact hall d hd e he

theorem digitChar_beq_colon {d : ℕ} (hd : d < 16) : (Nat.digitChar d == ':') = false := by
  have hall : ∀ d < 16, (Nat.digitChar d == ':') = false := by decide
  exact hall d hd

theorem colon_beq_digitChar {d : ℕ} (hd : d < 16) : (':' == Nat.digitChar d) = false := by
  have hall : ∀ d < 16, (':' == Nat.digitChar d) = false := by decide
  exact hall d hd

/-- A text begins with some digits if its first group does; what is asked for after them is looked
for after them. -/
theorem isPrefixOf_digits {q ds : List ℕ} {tail rest : List Char} (hq : ∀ d ∈ q, d < 16)
    (hds : ∀ d ∈ ds, d < 16) :
    (q.map Nat.digitChar ++ tail).isPrefixOf (ds.map Nat.digitChar ++ ':' :: rest) = true ↔
      ∃ ds', ds = q ++ ds' ∧ tail.isPrefixOf (ds'.map Nat.digitChar ++ ':' :: rest) = true := by
  induction q generalizing ds with
  | nil => simp
  | cons x q ih =>
    have hx : x < 16 := hq x List.mem_cons_self
    cases ds with
    | nil =>
      refine iff_of_false ?_ (fun ⟨_, h, _⟩ => List.cons_ne_nil _ _ h.symm)
      rw [List.map_nil, List.nil_append, List.map_cons, List.cons_append, List.isPrefixOf,
        digitChar_beq_colon hx]
      exact Bool.false_ne_true
    | cons d ds =>
      rw [List.map_cons, List.map_cons, List.cons_append, List.cons_append, List.isPrefixOf,
        Bool.and_eq_true, digitChar_beq hx (hds d List.mem_cons_self),
        ih (fun d hd => hq d (List.mem_cons_of_mem _ hd))
          fun d hd => hds d (List.mem_cons_of_mem _ hd)]
      simp only [List.cons_append, List.cons.injEq, and_assoc, eq_comm (a := d), exists_and_left]

theorem isPrefixOf_group_start {q ds : List ℕ} {rest : List Char} (hq : ∀ d ∈ q, d < 16)
    (hds : ∀ d ∈ ds, d < 16) :
    (q.map Nat.digitChar).isPrefixOf (ds.map Nat.digitChar ++ ':' :: rest) = true ↔ q <+: ds := by
  rw [← List.append_nil (q.map Nat.digitChar), isPrefixOf_digits hq hds,
    List.prefix_iff_exists_eq_append]
  simp

/-- A text begins with some digits and a colon if they are its first group. -/
theorem isPrefixOf_group {q ds : List ℕ} {rest : List Char} (hq : ∀ d ∈ q, d < 16)
    (hds : ∀ d ∈ ds, d < 16) :
    (q.map Nat.digitChar ++ [':']).isPrefixOf (ds.map Nat.digitChar ++ ':' :: rest) = true ↔
      q = ds := by
  rw [isPrefixOf_digits hq hds]
  constructor
  · rintro ⟨ds', rfl, hcolon⟩
    cases ds' with
    | nil => rw [List.append_nil]
    | cons d ds' =>
      rw [List.map_cons, List.cons_append, List.isPrefixOf,
        colon_beq_digitChar (hds d (List.mem_append_right _ List.mem_cons_self))] at hcolon
      cases hcolon
  · rintro rfl
    exact ⟨[], (List.append_nil _).symm, by simp⟩

/-- The ranges of the source, by the digits of the first group. -/
theorem number_ranges {ds : List ℕ} (hne : ds ≠ []) (hlength : ds.length ≤ 4)
    (hds : ∀ d ∈ ds, d < 16) :
    ([15, 14, 8, 0] = ds ↔ number 16 ds = 0xfe80) ∧
      ([15, 12] <+: ds ∨ [15, 13] <+: ds →
        number 16 ds / 512 = 126 ∨ (0 < number 16 ds ∧ number 16 ds < 0x1000)) ∧
      (number 16 ds / 512 = 126 → [15, 12] <+: ds ∨ [15, 13] <+: ds) := by
  match ds, hne, hlength, hds with
  | [a], _, _, hds =>
    have ha := hds a (by simp)
    have hnumber : number 16 [a] = a + 16 * 0 := rfl
    simp [hnumber]
    omega
  | [a, b], _, _, hds =>
    have ha := hds a (by simp)
    have hb := hds b (by simp)
    have hnumber : number 16 [a, b] = b + 16 * (a + 16 * 0) := rfl
    simp [hnumber]
    omega
  | [a, b, c], _, _, hds =>
    have ha := hds a (by simp)
    have hb := hds b (by simp)
    have hc := hds c (by simp)
    have hnumber : number 16 [a, b, c] = c + 16 * (b + 16 * (a + 16 * 0)) := rfl
    simp [hnumber]
    omega
  | [a, b, c, d], _, _, hds =>
    have ha := hds a (by simp)
    have hb := hds b (by simp)
    have hc := hds c (by simp)
    have hd := hds d (by simp)
    have hnumber : number 16 [a, b, c, d] = d + 16 * (c + 16 * (b + 16 * (a + 16 * 0))) := rfl
    simp [hnumber]
    omega

/-- What the verdict looks at: how the first group begins. -/
theorem first_group (h : Addresses.v6 text.toList = some n) :
    ∃ g m, n = g * 2 ^ 112 + m ∧ m < 2 ^ 112 ∧
      ("fe80:".toList.isPrefixOf (lower text) = true ↔ g = 0xfe80) ∧
      (BeginsUnique text → g / 512 = 126 ∨ (0 < g ∧ g < 0x1000)) ∧
      (g / 512 = 126 → BeginsUnique text) := by
  obtain ⟨g, m, hn, hm, hbegins⟩ := v6_first h
  refine ⟨g, m, hn, hm, ?_⟩
  have hfe80 : "fe80:".toList = [15, 14, 8, 0].map Nat.digitChar ++ [':'] := rfl
  have hfc : "fc".toList = [15, 12].map Nat.digitChar := rfl
  have hfd : "fd".toList = [15, 13].map Nat.digitChar := rfl
  rcases hbegins with ⟨rest, htext, rfl⟩ | ⟨p, rest, htext, hg⟩
  · -- the text begins with colons, the number with a group of zeros
    have hlower : lower text
        = ([] : List ℕ).map Nat.digitChar ++ ':' :: (':' :: rest).map Char.toLower := by
      rw [lower, htext]
      rfl
    rw [BeginsUnique, hlower, hfe80, hfc, hfd, isPrefixOf_group (by decide) (by simp),
      isPrefixOf_group_start (by decide) (by simp), isPrefixOf_group_start (by decide) (by simp)]
    simp
  · obtain ⟨ds, hne, hlength, hlt, hp, rfl⟩ := exists_digits_of_hextet hg
    have hlower : lower text = ds.map Nat.digitChar ++ ':' :: rest.map Char.toLower := by
      rw [lower, htext, List.map_append, hp]
      rfl
    rw [BeginsUnique, hlower, hfe80, hfc, hfd, isPrefixOf_group (by decide) hlt,
      isPrefixOf_group_start (by decide) hlt, isPrefixOf_group_start (by decide) hlt]
    exact number_ranges hne hlength hlt

/-- What the verdict is of an IPv6 address. -/
theorem isBlockedIp_v6_iff (h : address text = some (.v6 n)) :
    isBlockedIp text = true ↔ lower text = "::1".toList ∨
      "fe80:".toList.isPrefixOf (lower text) = true ∨ BeginsUnique text := by
  have hisIP : isIP text = 6 := by rw [isIP, h]
  rw [isBlockedIp, if_neg (by omega), if_pos hisIP, Bool.or_eq_true, Bool.or_eq_true,
    Bool.or_eq_true, decide_eq_true_eq, or_assoc, or_assoc, BeginsUnique]

/-- The verdict and the ranges, by the number and its first group. -/
theorem verdict_right_iff {spelt unique mapped : Prop} {g m : ℕ} (hn : n = g * 2 ^ 112 + m)
    (hm : m < 2 ^ 112) (hspelt : spelt → n = 1)
    (hunique : unique → g / 512 = 126 ∨ (0 < g ∧ g < 0x1000)) (hunique' : g / 512 = 126 → unique)
    (hmapped : mapped → g = 0 ∧ 1 < n) :
    ((spelt ∨ g = 0xfe80 ∨ unique) ↔
        (n = 1 ∨ n = 0 ∨ g / 64 = 0x3fa ∨ g / 512 = 126 ∨ mapped)) ↔
      ¬ (n = 0 ∨ (n = 1 ∧ ¬ spelt) ∨ (g / 64 = 0x3fa ∧ ¬ g = 0xfe80) ∨ mapped ∨
        (g < 0x1000 ∧ unique)) := by
  by_cases hs : spelt
  · -- loopback, in the spelling of the source
    have hone := hspelt hs
    have hnot : ¬ mapped := fun h => by
      have := hmapped h
      omega
    have hnot' : ¬ unique := fun h => by
      have := hunique h
      omega
    simp only [hs, hnot, hnot', true_or, not_true_eq_false, and_false, or_false, false_or,
      true_iff]
    omega
  · by_cases hu : unique
    · -- unique local addresses, and those taken for one
      have hfirst := hunique hu
      have hnot : ¬ mapped := fun h => by
        have := hmapped h
        omega
      simp only [hu, hnot, or_true, true_iff, or_false, false_or, and_true, hs, not_false_eq_true]
      omega
    · have hnot : ¬ g / 512 = 126 := fun h => hu (hunique' h)
      by_cases hM : mapped
      · have hfirst := hmapped hM
        simp only [hs, hu, hM, or_true, iff_true, false_or, or_false, true_or, not_true_eq_false,
          iff_false]
        omega
      · simp only [hs, hu, hM, hnot, false_or, or_false, and_false, not_false_eq_true, and_true]
        omega

theorem isBlockedIp_v6_right_iff (h : address text = some (.v6 n)) :
    (isBlockedIp text = true ↔ BlockedV6 n) ↔ ¬ Misjudged text (.v6 n) := by
  have hv6 := address_v6 h
  have hloopback : lower text = "::1".toList → n = 1 := fun hlower => eq_one_of_lower hlower hv6
  obtain ⟨g, m, hn, hm, hfe80, hunique, hunique'⟩ := first_group hv6
  have h10 : InPrefix 128 10 (0xfe80 * 2 ^ 112) n ↔ g / 64 = 0x3fa := by
    rw [InPrefix]
    omega
  have h16 : InPrefix 128 16 (0xfe80 * 2 ^ 112) n ↔ g = 0xfe80 := by
    rw [InPrefix]
    omega
  have h7 : InPrefix 128 7 (0xfc00 * 2 ^ 112) n ↔ g / 512 = 126 := by
    rw [InPrefix]
    omega
  have hmapped : MappedBlocked n → g = 0 ∧ 1 < n := fun h => by
    have h96 := h.1
    rw [InPrefix] at h96
    omega
  have hshort : n < 2 ^ 124 ↔ g < 0x1000 := by omega
  rw [isBlockedIp_v6_iff h, hfe80, BlockedV6, Misjudged, h10, h16, h7, hshort]
  exact verdict_right_iff hn hm hloopback hunique hunique' hmapped

/-- Of an address that is not misjudged, the verdict is right. -/
theorem right_iff_not_misjudged {a : Address} (h : address text = some a) :
    (isBlockedIp text = true ↔ Blocked a) ↔ ¬ Misjudged text a := by
  cases a with
  | v4 n => exact iff_of_true (isBlockedIp_v4_iff h) not_false
  | v6 n => exact isBlockedIp_v6_right_iff h

/-- **Of which texts the verdict is right**: of all but the misjudged ones; so the spellings of an
address that are not misjudged get one verdict. -/
theorem isBlockedIp_right_iff {a : Address} (h : address text = some a) :
    ((isBlockedIp text = true ↔ Blocked a) ↔ ¬ Misjudged text a) ∧
      (¬ Misjudged text a → ∀ text', address text' = some a → ¬ Misjudged text' a →
        isBlockedIp text' = isBlockedIp text) := by
  refine ⟨right_iff_not_misjudged h, fun hright text' h' hright' => ?_⟩
  have hverdict := (right_iff_not_misjudged h).mpr hright
  have hverdict' := (right_iff_not_misjudged h').mpr hright'
  exact Bool.eq_iff_iff.mpr (hverdict'.trans hverdict.symm)

/-- A link-local address in upper case, and a public one whose first group is `00fc`. -/
theorem spellings_judged_right :
    (isBlockedIp "FE80::1" = true ↔ Blocked (.v6 (0xfe80 * 2 ^ 112 + 1))) ∧
      (isBlockedIp "00fc::1" = true ↔ Blocked (.v6 (0xfc * 2 ^ 112 + 1))) :=
  ⟨(isBlockedIp_right_iff (show address "FE80::1" = _ by decide)).1.mpr (by decide),
    (isBlockedIp_right_iff (show address "00fc::1" = _ by decide)).1.mpr (by decide)⟩

/-- The metadata address of a cloud, mapped into IPv6, is let through; so is loopback with all of
its groups, which is blocked in its short spelling. -/
theorem mapped_metadata_address_not_blocked :
    (address "::ffff:169.254.169.254"
        = some (.v6 (0xffff * 2 ^ 32 + 169 * 2 ^ 24 + 254 * 2 ^ 16 + 169 * 2 ^ 8 + 254)) ∧
      Blocked (.v6 (0xffff * 2 ^ 32 + 169 * 2 ^ 24 + 254 * 2 ^ 16 + 169 * 2 ^ 8 + 254)) ∧
      isBlockedIp "::ffff:169.254.169.254" = false) ∧
    address "0:0:0:0:0:0:0:1" = address "::1" ∧ isBlockedIp "0:0:0:0:0:0:0:1" = false ∧
      isBlockedIp "::1" = true := by
  decide

end Swyft.Webhooks
