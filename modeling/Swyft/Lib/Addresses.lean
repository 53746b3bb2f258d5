import Mathlib.Data.Nat.Digits.Lemmas
import Mathlib.Tactic.Common

/-!
# Internet addresses as texts and as numbers

An address is a number of 32 or 128 bits, which has many spellings: groups of an IPv6 address may
be written with fewer digits, in either case, a run of zero groups may be left out, the last two
groups may be written as an IPv4 address, and a zone may follow. Addresses are read here as the
patterns of `net.isIP` accept them, and a text stands for the number that is read.

## Main definitions

* `Addresses.v4`, `Addresses.v6` — the number that a text stands for
* `Addresses.InPrefix` — a range of addresses, given by a prefix

## Main results

* `Addresses.exists_digits_of_hextet` — a group in lower case, digit by digit
* `Addresses.v4_eq_some` — the four parts of an IPv4 address
* `Addresses.v6_first` — how the text of an IPv6 address begins
-/

namespace Addresses

/-! ### Groups -/

/-- A number from its digits, the first one first. -/
def number (base : ℕ) (ds : List ℕ) : ℕ := Nat.ofDigits base ds.reverse

/-- A hexadecimal digit in either case. -/
def hexDigit (c : Char) : Option ℕ := (List.range 16).find? fun d => Nat.digitChar d = c.toLower

/-- A group of an IPv6 address: one to four hexadecimal digits. -/
def hextet (cs : List Char) : Option ℕ :=
  if cs ≠ [] ∧ cs.length ≤ 4 then (cs.mapM hexDigit).map (number 16) else none

/-- A part of an IPv4 address: a number up to 255 without leading zeros. -/
def octet (cs : List Char) : Option ℕ :=
  if cs ≠ [] ∧ cs.all Char.isDigit ∧ (cs.length = 1 ∨ cs.head? ≠ some '0') ∧
    Nat.ofDigitChars 10 cs 0 ≤ 255 then some (Nat.ofDigitChars 10 cs 0)
  else none

/-- The parts of an IPv4 address. -/
def octets (cs : List Char) : Option (List ℕ) :=
  if (cs.splitOn '.').length = 4 then (cs.splitOn '.').mapM octet else none

/-- The number of an IPv4 address. -/
def v4 (cs : List Char) : Option ℕ := (octets cs).map (number 256)

/-- What stands between the colons. -/
def pieces (cs : List Char) : List (List Char) := if cs = [] then [] else cs.splitOn ':'

/-- Groups, the last two of which may be written as an IPv4 address. -/
def lastGroups : List (List Char) → Option (List ℕ)
  | [] => some []
  | [p] =>
    match hextet p with
    | some n => some [n]
    | none => (v4 p).map fun n => [n / 65536, n % 65536]
  | p :: ps => do
    let n ← hextet p
    let ns ← lastGroups ps
    some (n :: ns)

/-- What stands before and after the first two colons in a row. -/
def doubleColon : List Char → Option (List Char × List Char)
  | ':' :: ':' :: rest => some ([], rest)
  | c :: rest => (doubleColon rest).map fun (l, r) => (c :: l, r)
  | [] => none

/-- The eight groups of an IPv6 address. -/
def groups (cs : List Char) : Option (List ℕ) :=
  match doubleColon cs with
  | some (l, r) => do
    let left ← (pieces l).mapM hextet
    let right ← lastGroups (pieces r)
    if left.length + right.length ≤ 7 then
      some (left ++ (List.replicate (8 - (left.length + right.length)) 0 ++ right))
    else none
  | none => do
    let all ← lastGroups (pieces cs)
    if all.length = 8 then some all else none

/-- A character of the name of a zone. -/
def isZoneChar (c : Char) : Bool := c.isAlphanum || c = '-' || c = '.' || c = ':'

/-- No zone, or one with a name. -/
def isZone : List Char → Bool
  | [] => true
  | c :: name => c = '%' && name ≠ [] && name.all isZoneChar

/-- The number of an IPv6 address. -/
def v6 (cs : List Char) : Option ℕ :=
  if isZone (cs.dropWhile (· ≠ '%')) then (groups (cs.takeWhile (· ≠ '%'))).map (number 65536)
  else none

/-- The addresses that agree with a network address on their first bits. -/
def InPrefix (bits len network n : ℕ) : Prop :=
  n / 2 ^ (bits - len) = network / 2 ^ (bits - len)

instance (bits len network n : ℕ) : Decidable (InPrefix bits len network n) :=
  inferInstanceAs (Decidable (_ = _))

variable {cs p l r : List Char} {gs : List ℕ} {n : ℕ}

example : v4 "10.0.0.255".toList = some (10 * 2 ^ 24 + 255) := by decide
example : v6 "::FFFF:10.0.0.1".toList = some (65535 * 2 ^ 32 + 10 * 2 ^ 24 + 1) := by decide
example : v6 "1:2:3:4:5:6:7::".toList = v6 "01:2:3:4:5:6:007:0".toList := by decide
example : v6 "1::2::3".toList = none ∧ v6 "1:2:3:4:5:6:7:1.2.3.4".toList = none := by decide

/-! ### Numbers of groups -/

/-- What is read piece by piece has what every piece gives it. -/
theorem mapM_spec {α β : Type} {f : α → Option β} {P : β → Prop} (hf : ∀ x y, f x = some y → P y)
    {xs : List α} {ys : List β} (h : xs.mapM f = some ys) :
    ys.length = xs.length ∧ ∀ y ∈ ys, P y := by
  induction xs generalizing ys with
  | nil =>
    obtain rfl : [] = ys := by simpa using h
    exact ⟨rfl, fun y hy => absurd hy List.not_mem_nil⟩
  | cons x xs ih =>
    simp only [List.mapM_cons, Option.bind_eq_bind, Option.bind_eq_some_iff, Option.pure_def,
      Option.some_inj] at h
    obtain ⟨y, hy, ys, hys, rfl⟩ := h
    obtain ⟨hlength, hall⟩ := ih hys
    exact ⟨congrArg (· + 1) hlength, List.forall_mem_cons.mpr ⟨hf x y hy, hall⟩⟩

theorem number_cons (base d : ℕ) (ds : List ℕ) :
    number base (d :: ds) = d * base ^ ds.length + number base ds := by
  rw [number, List.reverse_cons, Nat.ofDigits_append, Nat.ofDigits_singleton, List.length_reverse,
    Nat.mul_comm d, Nat.add_comm]
  rfl

theorem number_lt {base : ℕ} {ds : List ℕ} (hbase : 1 < base) (h : ∀ d ∈ ds, d < base) :
    number base ds < base ^ ds.length := by
  have hlt := Nat.ofDigits_lt_base_pow_length (b := base) (l := ds.reverse) hbase
    fun d hd => h d (List.mem_reverse.mp hd)
  rwa [List.length_reverse] at hlt

/-- What is read piece by piece shows what the pieces show. -/
theorem map_of_mapM {α β γ : Type} {f : α → Option β} {g : α → γ} {k : β → γ}
    (hf : ∀ x y, f x = some y → g x = k y) {xs : List α} {ys : List β}
    (h : xs.mapM f = some ys) : xs.map g = ys.map k := by
  induction xs generalizing ys with
  | nil =>
    obtain rfl : [] = ys := by simpa using h
    rfl
  | cons x xs ih =>
    simp only [List.mapM_cons, Option.bind_eq_bind, Option.bind_eq_some_iff, Option.pure_def,
      Option.some_inj] at h
    obtain ⟨y, hy, ys, hys, rfl⟩ := h
    rw [List.map_cons, List.map_cons, hf x y hy, ih hys]

/-- A digit and its character in lower case. -/
theorem lower_of_hexDigit {c : Char} {d : ℕ} (h : hexDigit c = some d) :
    d < 16 ∧ c.toLower = Nat.digitChar d := by
  have hchar : Nat.digitChar d = c.toLower := by simpa using List.find?_some h
  exact ⟨List.mem_range.mp (List.mem_of_find?_eq_some h), hchar.symm⟩

/-- A group in lower case, digit by digit. -/
theorem exists_digits_of_hextet (h : hextet p = some n) :
    ∃ ds : List ℕ, ds ≠ [] ∧ ds.length ≤ 4 ∧ (∀ d ∈ ds, d < 16) ∧
      p.map Char.toLower = ds.map Nat.digitChar ∧ n = number 16 ds := by
  rw [hextet] at h
  split at h
  case isFalse => cases h
  case isTrue hlength =>
    obtain ⟨ds, hds, rfl⟩ := Option.map_eq_some_iff.mp h
    obtain ⟨hlengths, hlt⟩ := mapM_spec (fun c d hd => (lower_of_hexDigit hd).1) hds
    refine ⟨ds, fun hnil => ?_, hlengths ▸ hlength.2, hlt, ?_, rfl⟩
    · rw [hnil, List.length_nil] at hlengths
      exact hlength.1 (List.length_eq_zero_iff.mp hlengths.symm)
    · exact map_of_mapM (fun c d hd => (lower_of_hexDigit hd).2) hds

theorem hextet_lt (h : hextet p = some n) : n < 65536 := by
  obtain ⟨ds, -, hlength, hlt, -, rfl⟩ := exists_digits_of_hextet h
  calc number 16 ds < 16 ^ ds.length := number_lt (by decide) hlt
    _ ≤ 16 ^ 4 := Nat.pow_le_pow_right (by decide) hlength

/-! ### How an address begins -/

theorem doubleColon_eq (h : doubleColon cs = some (l, r)) : cs = l ++ ':' :: ':' :: r := by
  fun_induction doubleColon cs generalizing l with
  | case1 rest =>
    obtain ⟨rfl, rfl⟩ := Prod.mk.inj (Option.some.inj h)
    rfl
  | case2 c rest _ ih =>
    obtain ⟨⟨l', r'⟩, hrest, heq⟩ := Option.map_eq_some_iff.mp h
    obtain ⟨rfl, rfl⟩ := Prod.mk.inj heq
    rw [ih hrest]
    rfl
  | case3 => cases h

/-- The first of several pieces stands before a colon. -/
theorem pieces_cons {ps : List (List Char)} (h : pieces cs = p :: ps) :
    cs = p ∧ ps = [] ∨ ∃ rest, cs = p ++ ':' :: rest := by
  rw [pieces] at h
  split at h
  case isTrue => cases h
  case isFalse =>
    have hjoin : [':'].intercalate (cs.splitOn ':') = cs := List.intercalate_splitOn _
    rw [h] at hjoin
    cases ps with
    | nil =>
      rw [List.intercalate_singleton] at hjoin
      exact .inl ⟨hjoin.symm, rfl⟩
    | cons q ps =>
      rw [List.intercalate_cons_cons, List.append_assoc] at hjoin
      exact .inr ⟨_, hjoin.symm⟩

/-- A part of an IPv4 address is written in digits. -/
theorem octet_eq_some (h : octet p = some n) :
    (p ≠ [] ∧ ∀ c ∈ p, c.isDigit) ∧ n = Nat.ofDigitChars 10 p 0 ∧ n < 256 := by
  rw [octet] at h
  split at h
  case isFalse => cases h
  case isTrue hoctet =>
    obtain rfl := Option.some.inj h
    obtain ⟨hne, hdigits, -, hle⟩ := hoctet
    exact ⟨⟨hne, List.all_eq_true.mp hdigits⟩, rfl, Nat.lt_succ_of_le hle⟩

/-- An IPv4 address has four parts. -/
theorem v4_eq_some (h : v4 cs = some n) :
    ∃ a b c d, (cs.splitOn '.').mapM octet = some [a, b, c, d] ∧
      (a < 256 ∧ b < 256 ∧ c < 256 ∧ d < 256) ∧ n = a * 2 ^ 24 + b * 2 ^ 16 + c * 2 ^ 8 + d := by
  obtain ⟨parts, hparts, rfl⟩ := Option.map_eq_some_iff.mp h
  rw [octets] at hparts
  split at hparts
  case isFalse => cases hparts
  case isTrue hfour =>
    obtain ⟨hlength, hlt⟩ := mapM_spec (fun _ _ hn => (octet_eq_some hn).2.2) hparts
    rw [hfour] at hlength
    obtain ⟨a, b, c, d, rfl⟩ : ∃ a b c d, parts = [a, b, c, d] := List.length_eq_four.mp hlength
    refine ⟨a, b, c, d, hparts, by simpa using hlt, ?_⟩
    simp only [number_cons, List.length_cons, List.length_nil]
    show a * 256 ^ 3 + (b * 256 ^ 2 + (c * 256 ^ 1 + (d * 256 ^ 0 + 0))) = _
    omega

theorem v4_lt (h : v4 cs = some n) : n < 2 ^ 32 := by
  obtain ⟨a, b, c, d, -, ⟨ha, hb, hc, hd⟩, rfl⟩ := v4_eq_some h
  omega

theorem lastGroups_lt {ps : List (List Char)} (h : lastGroups ps = some gs) :
    ∀ g ∈ gs, g < 65536 := by
  fun_induction lastGroups ps generalizing gs with
  | case1 =>
    obtain rfl := Option.some.inj h
    exact fun g hg => absurd hg List.not_mem_nil
  | case2 p n hn =>
    obtain rfl := Option.some.inj h
    exact List.forall_mem_singleton.mpr (hextet_lt hn)
  | case3 p hn =>
    obtain ⟨n, hn, rfl⟩ := Option.map_eq_some_iff.mp h
    have hlt := v4_lt hn
    intro g hg
    simp only [List.mem_cons, List.not_mem_nil, or_false] at hg
    omega
  | case4 p ps hps ih =>
    simp only [Option.bind_eq_bind, Option.bind_eq_some_iff, Option.some_inj] at h
    obtain ⟨n, hn, ns, hns, rfl⟩ := h
    exact List.forall_mem_cons.mpr ⟨hextet_lt hn, ih hns⟩

/-- An address that begins with a group, or with two colons and the group zero. -/
def Begins (cs : List Char) (g : ℕ) : Prop :=
  (∃ rest, cs = ':' :: ':' :: rest ∧ g = 0) ∨ ∃ p rest, cs = p ++ ':' :: rest ∧ hextet p = some g

/-- Of more groups than an IPv4 address has, the first one is written as one. -/
theorem lastGroups_first {ps : List (List Char)} (h : lastGroups ps = some gs)
    (hlong : 2 < gs.length) : ∃ p q ps' g ns, ps = p :: q :: ps' ∧ gs = g :: ns ∧
      hextet p = some g := by
  fun_cases lastGroups ps with
  | case1 =>
    obtain rfl := Option.some.inj h
    exact absurd hlong (by simp)
  | case2 p n hn =>
    simp only [lastGroups, hn, Option.some_inj] at h
    subst h
    exact absurd hlong (by simp)
  | case3 p hn =>
    simp only [lastGroups, hn] at h
    obtain ⟨n, -, rfl⟩ := Option.map_eq_some_iff.mp h
    exact absurd hlong (by simp)
  | case4 p ps hps =>
    simp only [lastGroups, Option.bind_eq_bind, Option.bind_eq_some_iff, Option.some_inj] at h
    obtain ⟨n, hn, ns, -, rfl⟩ := h
    obtain ⟨q, ps', rfl⟩ := List.exists_cons_of_ne_nil hps
    exact ⟨p, q, ps', n, ns, rfl, rfl, hn⟩

/-- The first of the groups before the two colons. -/
theorem begins_of_left {g : ℕ} {gs : List ℕ} (h : (pieces l).mapM hextet = some (g :: gs)) :
    Begins (l ++ ':' :: ':' :: r) g := by
  cases hps : pieces l with
  | nil =>
    rw [hps] at h
    cases h
  | cons p ps =>
    rw [hps] at h
    simp only [List.mapM_cons, Option.bind_eq_bind, Option.bind_eq_some_iff, Option.pure_def,
      Option.some_inj, List.cons.injEq] at h
    obtain ⟨_, hg, _, -, rfl, -⟩ := h
    rcases pieces_cons hps with ⟨rfl, -⟩ | ⟨rest, rfl⟩
    · exact .inr ⟨l, ':' :: r, rfl, hg⟩
    · exact .inr ⟨p, rest ++ ':' :: ':' :: r, by rw [List.append_assoc, List.cons_append], hg⟩

theorem pieces_eq_nil (h : (pieces l).mapM hextet = some []) : l = [] := by
  obtain ⟨hlength, -⟩ := mapM_spec (P := fun _ => True) (fun _ _ _ => trivial) h
  have hnil : pieces l = [] := List.length_eq_zero_iff.mp hlength.symm
  rw [pieces] at hnil
  split at hnil
  case isTrue hempty => exact hempty
  case isFalse => exact absurd hnil (List.splitOn_ne_nil _ _)

/-- An address with two colons in a row, and one without. -/
theorem groups_cases (h : groups cs = some gs) :
    (∃ l r left right, doubleColon cs = some (l, r) ∧ (pieces l).mapM hextet = some left ∧
      lastGroups (pieces r) = some right ∧ left.length + right.length ≤ 7 ∧
      gs = left ++ (List.replicate (8 - (left.length + right.length)) 0 ++ right)) ∨
    lastGroups (pieces cs) = some gs ∧ gs.length = 8 := by
  rw [groups] at h
  split at h
  case h_1 l r hsplit =>
    simp only [Option.bind_eq_bind, Option.bind_eq_some_iff] at h
    obtain ⟨left, hleft, right, hright, h⟩ := h
    split at h
    case isFalse => cases h
    case isTrue hfew =>
      exact .inl ⟨l, r, left, right, hsplit, hleft, hright, hfew, (Option.some.inj h).symm⟩
  case h_2 hnone =>
    simp only [Option.bind_eq_bind, Option.bind_eq_some_iff] at h
    obtain ⟨all, hall, h⟩ := h
    split at h
    case isFalse => cases h
    case isTrue height =>
      obtain rfl := Option.some.inj h
      exact .inr ⟨hall, height⟩

/-- An address has eight groups. -/
theorem groups_spec (h : groups cs = some gs) : gs.length = 8 ∧ ∀ g ∈ gs, g < 65536 := by
  rcases groups_cases h with ⟨l, r, left, right, -, hleft, hright, hfew, rfl⟩ | ⟨hall, height⟩
  · obtain ⟨-, hlefts⟩ := mapM_spec (fun _ _ => hextet_lt) hleft
    refine ⟨?_, fun g hg => ?_⟩
    · rw [List.length_append, List.length_append, List.length_replicate]
      omega
    · rcases List.mem_append.mp hg with hg | hg
      · exact hlefts g hg
      rcases List.mem_append.mp hg with hg | hg
      · rw [List.eq_of_mem_replicate hg]
        decide
      · exact lastGroups_lt hright g hg
  · exact ⟨height, lastGroups_lt hall⟩

/-- The text of an address begins with its first group. -/
theorem groups_begins {g : ℕ} {ns : List ℕ} (h : groups cs = some (g :: ns)) : Begins cs g := by
  rcases groups_cases h with ⟨l, r, left, right, hsplit, hleft, -, hfew, hgroups⟩ |
    ⟨hall, height⟩
  · rw [doubleColon_eq hsplit]
    cases left with
    | nil =>
      -- nothing stands before the two colons: the groups begin with zeros
      obtain rfl := pieces_eq_nil hleft
      rw [List.length_nil, Nat.zero_add] at hfew hgroups
      rw [show 8 - right.length = 7 - right.length + 1 by omega, List.replicate_succ] at hgroups
      exact .inl ⟨r, rfl, (List.cons.inj hgroups).1⟩
    | cons g' left =>
      rw [(List.cons.inj hgroups).1]
      exact begins_of_left hleft
  · obtain ⟨p, q, ps, g', ns', hps, hcons, hg⟩ := lastGroups_first hall (by omega)
    rw [(List.cons.inj hcons).1]
    rcases pieces_cons hps with ⟨-, hnil⟩ | ⟨rest, rfl⟩
    · cases hnil
    · exact .inr ⟨p, rest, rfl, hg⟩

theorem Begins.append {g : ℕ} (h : Begins cs g) (zone : List Char) : Begins (cs ++ zone) g := by
  rcases h with ⟨rest, rfl, rfl⟩ | ⟨p, rest, rfl, hg⟩
  · exact .inl ⟨rest ++ zone, rfl, rfl⟩
  · exact .inr ⟨p, rest ++ zone, by rw [List.append_assoc, List.cons_append], hg⟩

/-- **How the text of an address begins**: with its first group. -/
theorem v6_first (h : v6 cs = some n) :
    ∃ g m, n = g * 2 ^ 112 + m ∧ m < 2 ^ 112 ∧ Begins cs g := by
  rw [v6] at h
  split at h
  case isFalse => cases h
  case isTrue =>
    obtain ⟨gs, hgs, rfl⟩ := Option.map_eq_some_iff.mp h
    obtain ⟨hlength, hlt⟩ := groups_spec hgs
    obtain ⟨g, ns, rfl⟩ := List.exists_cons_of_length_eq_add_one hlength
    have hlength : ns.length = 7 := Nat.succ.inj hlength
    have hbegins := (groups_begins hgs).append (cs.dropWhile (· ≠ '%'))
    have hrest := number_lt (by decide) fun m hm => hlt m (List.mem_cons_of_mem _ hm)
    rw [List.takeWhile_append_dropWhile] at hbegins
    rw [hlength] at hrest
    refine ⟨g, number 65536 ns, ?_, hrest, hbegins⟩
    rw [number_cons, hlength]
    rfl

end Addresses
