import NatsClient.Wire.Headers

/-!
# Hosts and ports

Model of `hostPort` (`servers.ts`) and what it calls: the text before a protocol is removed, an IPv4
address mapped to IPv6 is taken out, an IPv6 address is bracketed, and the port is read in the text.
The host is what `URL` makes of it. `URL` and `toUpperCase` are the platform's: `Platform` stands
for them.

* `hostPort_listen`: a listen address is its own listen address, if `URL` follows its standard.
-/

set_option autoImplicit false

namespace NatsClient.Reconnect

open NatsClient.Foundation NatsClient.Wire

/-- What the platform does: the host name and the port that `new URL` reads in a text behind the
protocol, with no host name where it throws, and `toUpperCase`. -/
structure Platform where
  urlHostname : List Char → Option (List Char)
  urlPort : List Char → Option Nat
  toUpperCase : List Char → List Char

def DEFAULT_PORT : Nat := 4222

/-- `hp.indexOf(p)`, with `none` for `-1`. -/
def findText (p : List Char) : List Char → Option Nat
  | [] => if p = [] then some 0 else none
  | c :: cs => if p.isPrefixOf (c :: cs) then some 0 else (findText p cs).map (· + 1)

def isIPV4OrHostname (hp : List Char) : Bool :=
  if '[' ∈ hp ∨ findText [':', ':'] hp ≠ none then false
  else if '.' ∈ hp then true
  else decide ((hp.splitOn ':').length ≤ 2)

def isIPV6 (hp : List Char) : Bool := !isIPV4OrHostname hp

namespace Platform

def filterIpv6MappedToIpv4 (platform : Platform) (hp : List Char) : List Char :=
  let pre := [':', ':', 'F', 'F', 'F', 'F', ':']
  match findText pre (platform.toUpperCase hp) with
  | some idx =>
      if '.' ∈ hp then removeFirst [']'] (removeFirst ['['] (hp.drop (idx + pre.length))) else hp
  | none => hp

end Platform

/-- What is behind the last `://` of a line. -/
def behindProtocol : List Char → Option (List Char)
  | [] => none
  | c :: cs =>
      match behindProtocol cs with
      | some rest => some rest
      | none => if [':', '/', '/'].isPrefixOf (c :: cs) then some ((c :: cs).drop 3) else none

/-- The line terminators of a regular expression. -/
def isTerminator (c : Char) : Bool := c ∈ ['\n', '\r', '\u2028', '\u2029']

/-- `u.replace(/^(.*:\/\/)(.*)/gm, "$2")`, from within a line on. -/
def removeProtocol (line : List Char) : List Char → List Char
  | [] => (behindProtocol line).getD line
  | c :: cs =>
      if isTerminator c then (behindProtocol line).getD line ++ c :: removeProtocol [] cs
      else removeProtocol (line ++ [c]) cs

/-- `u.match(/(p)(\d+)/)`: the digits behind the first `p` that has some. -/
def matchPort (p : List Char) : List Char → Option (List Char)
  | [] => none
  | c :: cs =>
      let digits := ((c :: cs).drop p.length).takeWhile Char.isDigit
      if p.isPrefixOf (c :: cs) ∧ digits ≠ [] then some digits else matchPort p cs

/-- What `url.port = text` leaves: a text without a port in front of it changes nothing. -/
def setPort (own : Option Nat) (text : List Char) : Option Nat :=
  let digits := text.takeWhile Char.isDigit
  if digits = [] ∨ 65535 < Nat.ofDigitChars 10 digits 0 then own
  else some (Nat.ofDigitChars 10 digits 0)

/-- `url.host`: the port of the protocol is left out. -/
def urlHost (https : Bool) (hostname : List Char) : Option Nat → List Char
  | none => hostname
  | some port =>
      if port = (if https then 443 else 80) then hostname
      else hostname ++ ':' :: Nat.toDigits 10 port

/-- What `hostPort` returns. -/
structure HostPort where
  listen : List Char
  hostname : List Char
  port : Nat
deriving DecidableEq, Repr

/-- `hostPort(u)`; `none` where it throws. -/
def Platform.hostPort (platform : Platform) (u : List Char) : Option HostPort :=
  let u := removeProtocol [] (trim u)
  let u := platform.filterIpv6MappedToIpv4 u
  let u := if isIPV6 u = true ∧ '[' ∉ u then '[' :: (u ++ [']']) else u
  let op := if isIPV6 u then matchPort [']', ':'] u else matchPort [':'] u
  let port := match op with
    | some digits => f64 (Nat.ofDigitChars 10 digits 0)
    | none => DEFAULT_PORT
  -- the protocol is chosen so that `URL` does not leave out the port
  match platform.urlHostname u with
  | none => none
  | some hostname =>
      some {
        listen := urlHost (port = 80) hostname (setPort (platform.urlPort u) (f64Text port))
        hostname := if hostname[0]? = some '[' then (hostname.drop 1).dropLast else hostname
        port }

/-! ## Listen addresses -/

/-- A host name as `URL` writes it: an IPv6 address in brackets, or a name without the characters
that are forbidden in one. -/
def IsHost (n : List Char) : Prop :=
  (∃ v, n = '[' :: (v ++ [']']) ∧ ∀ c ∈ v, c = ':' ∨ c ∈ "0123456789abcdef".toList) ∨
    n ≠ [] ∧ ∀ c ∈ n, 33 ≤ c.toNat ∧ c.toNat < 127 ∧ c ∉ [':', '/', '[', ']']

/-- What the standard says of host names: how they are written, and that they are read as they are
written with any port behind them; and what `toUpperCase` does to ASCII characters. -/
structure Platform.Standard (platform : Platform) : Prop where
  isHost : ∀ u n, platform.urlHostname u = some n → IsHost n
  again : ∀ u n, platform.urlHostname u = some n →
    ∀ port ≤ 65535, platform.urlHostname (n ++ ':' :: Nat.toDigits 10 port) = some n
  upper : ∀ cs : List Char, (∀ c ∈ cs, c.toNat < 127) →
    platform.toUpperCase cs = cs.map Char.toUpper

section

variable {n ds cs xs p line : List Char} {c : Char}

theorem findText_ne_none_iff (hp : p ≠ []) (cs : List Char) : findText p cs ≠ none ↔ p <:+: cs := by
  induction cs with
  | nil =>
      rw [findText, if_neg hp, List.infix_nil]
      simp [hp]
  | cons c cs ih =>
      rw [findText, List.infix_cons_iff]
      split
      · next hfront => simp [List.isPrefixOf_iff_prefix.1 hfront]
      · next hfront =>
          have hnot : ¬ p <+: c :: cs := fun h => hfront (List.isPrefixOf_iff_prefix.2 h)
          rw [or_iff_right hnot, ← ih, ne_eq, ne_eq, Option.map_eq_none_iff]

/-- A text with one colon has no two of them in a row. -/
theorem not_infix_of_count (hcount : cs.count ':' ≤ 1) : ¬ [':', ':'] <:+: cs := by
  intro h
  have hle : [':', ':'].count ':' ≤ cs.count ':' := h.sublist.count_le ':'
  exact absurd (Nat.le_trans hle hcount) (by decide)

theorem behindProtocol_eq_none (hcs : '/' ∉ cs) : behindProtocol cs = none := by
  induction cs with
  | nil => rfl
  | cons c cs ih =>
      rw [List.mem_cons, not_or] at hcs
      have hfront : ¬ [':', '/', '/'].isPrefixOf (c :: cs) = true := by
        rw [List.isPrefixOf_iff_prefix]
        intro h
        have hslash := (List.cons_prefix_cons.1 h).2
        exact hcs.2 (hslash.subset List.mem_cons_self)
      rw [behindProtocol, ih hcs.2]
      exact if_neg hfront

/-- A text without a protocol is left as it is. -/
theorem removeProtocol_eq (h : '/' ∉ line ++ cs) : removeProtocol line cs = line ++ cs := by
  induction cs generalizing line with
  | nil =>
      rw [List.append_nil] at h
      rw [removeProtocol, behindProtocol_eq_none h, List.append_nil]
      rfl
  | cons c cs ih =>
      have hline : '/' ∉ line := fun hmem => h (List.mem_append_left _ hmem)
      have hcs : '/' ∉ [] ++ cs :=
        fun hmem => h (List.mem_append_right _ (List.mem_cons_of_mem c hmem))
      rw [removeProtocol, behindProtocol_eq_none hline]
      split
      · rw [ih hcs]
        rfl
      · rw [ih (by simpa using h), List.append_assoc]
        rfl

theorem matchPort_append (hc : c ∉ xs) (cs : List Char) :
    matchPort (c :: p) (xs ++ cs) = matchPort (c :: p) cs := by
  induction xs with
  | nil => rfl
  | cons x xs ih =>
      rw [List.mem_cons, not_or] at hc
      have hfront : ¬ (c :: p).isPrefixOf (x :: (xs ++ cs)) = true := by
        rw [List.isPrefixOf_iff_prefix, List.cons_prefix_cons]
        exact fun h => hc.1 h.1
      rw [List.cons_append, matchPort]
      rw [if_neg fun h => hfront h.1, ih hc.2]

theorem takeWhile_digits (hds : ∀ c ∈ ds, c.isDigit = true) : ds.takeWhile Char.isDigit = ds :=
  List.takeWhile_eq_self_iff.2 hds

theorem matchPort_self (hds : ∀ c ∈ ds, c.isDigit = true) (hne : ds ≠ []) (c : Char) :
    matchPort (c :: p) (c :: (p ++ ds)) = some ds := by
  have hfront : (c :: p).isPrefixOf (c :: (p ++ ds)) = true :=
    List.isPrefixOf_iff_prefix.2 (List.prefix_append (c :: p) ds)
  have hdigits : ((c :: (p ++ ds)).drop (c :: p).length).takeWhile Char.isDigit = ds := by
    rw [List.length_cons, List.drop_succ_cons, List.drop_left, takeWhile_digits hds]
  rw [matchPort]
  rw [hdigits, if_pos ⟨hfront, hne⟩]

theorem setPort_of_le {port : Nat} (hle : port ≤ 65535) (own : Option Nat) :
    setPort own (f64Text port) = some port := by
  have hdigits : ∀ c ∈ Nat.toDigits 10 port, c.isDigit = true := fun c hc =>
    Nat.isDigit_of_mem_toDigits (by decide) (by decide) hc
  have hlt : port < 2 ^ 53 := Nat.lt_of_le_of_lt hle (by decide)
  rw [setPort, f64Text_of_lt hlt, takeWhile_digits hdigits]
  rw [Nat.ofDigitChars_ten_toDigits, if_neg]
  exact not_or.2 ⟨Nat.toDigits_ne_nil, Nat.not_lt.2 hle⟩

/-- **The port is never left out**: the protocol is the other one where it would be. -/
theorem urlHost_port (hostname : List Char) (port : Nat) :
    urlHost (port = 80) hostname (some port) = hostname ++ ':' :: Nat.toDigits 10 port := by
  rw [urlHost, if_neg]
  by_cases heighty : port = 80
  · simp [heighty]
  · simp [heighty]

/-- The characters of a host name. -/
theorem IsHost.char (hn : IsHost n) : ∀ c ∈ n, 33 ≤ c.toNat ∧ c.toNat < 127 ∧ c ≠ '/' := by
  rcases hn with ⟨v, rfl, hv⟩ | ⟨-, hchars⟩
  · have hhexes : ("0123456789abcdef".toList.all fun c =>
        decide (33 ≤ c.toNat ∧ c.toNat < 127 ∧ c ≠ '/')) = true := by decide
    intro c hc
    rcases List.mem_cons.1 hc with rfl | hc
    · decide
    · rcases List.mem_append.1 hc with hc | hc
      · rcases hv c hc with rfl | hhex
        · decide
        · exact of_decide_eq_true (List.all_eq_true.1 hhexes c hhex)
      · rw [List.mem_singleton.1 hc]
        decide
  · intro c hc
    obtain ⟨hlow, hhigh, hnot⟩ := hchars c hc
    refine ⟨hlow, hhigh, ?_⟩
    rintro rfl
    simp at hnot

theorem IsHost.ne_nil (hn : IsHost n) : n ≠ [] := by
  rcases hn with ⟨v, rfl, -⟩ | ⟨hne, -⟩
  · exact List.cons_ne_nil _ _
  · exact hne

/-- What is in front of the port and behind it is left as it is. -/
theorem trim_listen (hn : IsHost n) (hds : ∀ c ∈ ds, c.isDigit = true) (hne : ds ≠ []) :
    trim (n ++ ':' :: ds) = n ++ ':' :: ds := by
  have hspace : ∀ {c : Char}, c.toNat < 127 → 33 ≤ c.toNat → isSpace c = false := fun hlt =>
    of_ascii (P := fun c => 33 ≤ c.toNat → isSpace c = false) (by decide) hlt
  apply trim_of_not_isSpace
  · intro c hc
    obtain ⟨d, n, rfl⟩ := List.exists_cons_of_ne_nil hn.ne_nil
    obtain rfl : d = c := Option.some.inj hc
    obtain ⟨hlow, hhigh, -⟩ := hn.char d List.mem_cons_self
    exact hspace hhigh hlow
  · intro c hc
    rw [List.getLast?_append_of_ne_nil _ (List.cons_ne_nil _ _), List.getLast?_cons,
      List.getLast?_eq_getLast_of_ne_nil hne, Option.getD_some] at hc
    obtain rfl := Option.some.inj hc
    exact isSpace_of_isDigit (hds _ (List.getLast_mem hne))

theorem isDigit_ne (hds : ∀ c ∈ ds, c.isDigit = true) (hc : c.isDigit = false) : c ∉ ds :=
  fun hmem => by
  rw [hds c hmem] at hc
  cases hc

theorem removeProtocol_listen (hn : IsHost n) (hds : ∀ c ∈ ds, c.isDigit = true) :
    removeProtocol [] (n ++ ':' :: ds) = n ++ ':' :: ds := by
  apply removeProtocol_eq
  rw [List.nil_append]
  intro hmem
  rcases List.mem_append.1 hmem with hmem | hmem
  · exact (hn.char _ hmem).2.2 rfl
  · rcases List.mem_cons.1 hmem with heq | hmem
    · exact absurd heq (by decide)
    · exact isDigit_ne hds (by decide) hmem

/-- A name has no bracket, and no colon but the one in front of the port. -/
theorem count_listen (hchars : ∀ c ∈ n, c ∉ [':', '/', '[', ']'])
    (hds : ∀ c ∈ ds, c.isDigit = true) : (n ++ ':' :: ds).count ':' = 1 := by
  have hnone : ':' ∉ n := fun hmem => hchars _ hmem List.mem_cons_self
  rw [List.count_append, List.count_cons_self, List.count_eq_zero.2 hnone,
    List.count_eq_zero.2 (isDigit_ne hds (by decide))]

theorem isIPV6_name (hchars : ∀ c ∈ n, c ∉ [':', '/', '[', ']'])
    (hds : ∀ c ∈ ds, c.isDigit = true) : isIPV6 (n ++ ':' :: ds) = false := by
  have hbracket : '[' ∉ n ++ ':' :: ds := by
    intro hmem
    rcases List.mem_append.1 hmem with hmem | hmem
    · exact hchars _ hmem (by decide)
    · rcases List.mem_cons.1 hmem with heq | hmem
      · exact absurd heq (by decide)
      · exact isDigit_ne hds (by decide) hmem
  have hcolons : ¬ findText [':', ':'] (n ++ ':' :: ds) ≠ none := by
    rw [findText_ne_none_iff (List.cons_ne_nil _ _)]
    exact not_infix_of_count (Nat.le_of_eq (count_listen hchars hds))
  have hsplit : ((n ++ ':' :: ds).splitOn ':').length = 2 := by
    rw [List.splitOn_append_cons_self, List.splitOn_eq_singleton fun hmem =>
      hchars _ hmem List.mem_cons_self, List.splitOn_eq_singleton (isDigit_ne hds (by decide))]
    rfl
  rw [isIPV6, isIPV4OrHostname, if_neg (not_or.2 ⟨hbracket, hcolons⟩), hsplit]
  split <;> rfl

theorem isIPV6_bracket (h : '[' ∈ cs) : isIPV6 cs = true := by
  rw [isIPV6, isIPV4OrHostname, if_pos (.inl h)]
  rfl

/-- A listen address is not one of IPv4 that is mapped to IPv6. -/
theorem Platform.Standard.filter_listen {platform : Platform} (hplatform : platform.Standard)
    (hn : IsHost n) (hds : ∀ c ∈ ds, c.isDigit = true) :
    platform.filterIpv6MappedToIpv4 (n ++ ':' :: ds) = n ++ ':' :: ds := by
  have hdot : '.' ∉ ds := isDigit_ne hds (by decide)
  rw [Platform.filterIpv6MappedToIpv4]
  rcases hn with ⟨v, rfl, hv⟩ | ⟨hne, hchars⟩
  · -- there is no dot in an IPv6 address
    have hnone : '.' ∉ '[' :: (v ++ [']']) ++ ':' :: ds := by
      have hvdot : '.' ∉ v := fun hmem => by
        rcases hv _ hmem with heq | hhex
        · exact absurd heq (by decide)
        · exact absurd hhex (by decide)
      simp [hvdot, hdot]
    split
    · rw [if_neg hnone]
    · rfl
  · -- there is no room for the two colons in a name
    have hascii : ∀ c ∈ n ++ ':' :: ds, c.toNat < 127 := by
      intro c hc
      rcases List.mem_append.1 hc with hc | hc
      · exact (hchars c hc).2.1
      · rcases List.mem_cons.1 hc with rfl | hc
        · decide
        · exact Nat.lt_of_le_of_lt (Char.isDigit_iff_toNat.1 (hds c hc)).2 (by decide)
    have hcount : ((n ++ ':' :: ds).map Char.toUpper).count ':' ≤ 1 := by
      have hupper : ∀ {c : Char}, c.toNat < 127 → c.toUpper = ':' → c = ':' := fun hlt =>
        of_ascii (P := fun c => c.toUpper = ':' → c = ':') (by decide) hlt
      have hsame : ((n ++ ':' :: ds).map Char.toUpper).count ':' = (n ++ ':' :: ds).count ':' := by
        rw [List.count, List.countP_map]
        apply List.countP_congr
        intro c hc
        simp only [Function.comp_apply, beq_iff_eq]
        refine ⟨hupper (hascii c hc), ?_⟩
        rintro rfl
        decide
      rw [hsame, count_listen (fun c hc => (hchars c hc).2.2) hds]
    have hnone : findText [':', ':', 'F', 'F', 'F', 'F', ':']
        (platform.toUpperCase (n ++ ':' :: ds)) = none := by
      rw [hplatform.upper _ hascii]
      by_contra hsome
      have hinfix := (findText_ne_none_iff (List.cons_ne_nil _ _) _).1 hsome
      have hpre : [':', ':'] <:+: [':', ':', 'F', 'F', 'F', 'F', ':'] :=
        ⟨[], ['F', 'F', 'F', 'F', ':'], rfl⟩
      exact not_infix_of_count hcount (hpre.trans hinfix)
    rw [hnone]

/-- **The port of a listen address is found.** -/
theorem matchPort_listen (hn : IsHost n) (hds : ∀ c ∈ ds, c.isDigit = true) (hne : ds ≠ []) :
    (if isIPV6 (n ++ ':' :: ds) then matchPort [']', ':'] (n ++ ':' :: ds)
      else matchPort [':'] (n ++ ':' :: ds)) = some ds := by
  rcases hn with ⟨v, rfl, hv⟩ | ⟨-, hchars⟩
  · have hbracket : ']' ∉ '[' :: v := by
      intro hmem
      rcases List.mem_cons.1 hmem with heq | hmem
      · exact absurd heq (by decide)
      · rcases hv _ hmem with heq | hhex
        · exact absurd heq (by decide)
        · exact absurd hhex (by decide)
    have htext : '[' :: (v ++ [']']) ++ ':' :: ds = ('[' :: v) ++ ']' :: ([':'] ++ ds) := by simp
    rw [htext, if_pos (isIPV6_bracket (List.mem_append_left _ List.mem_cons_self)),
      matchPort_append hbracket, matchPort_self hds hne]
  · have hcolon : ':' ∉ n := fun hmem => hchars _ hmem |>.2.2 List.mem_cons_self
    rw [isIPV6_name (fun c hc => (hchars c hc).2.2) hds, if_neg Bool.false_ne_true,
      matchPort_append hcolon]
    exact matchPort_self (p := []) hds hne ':'

/-- A listen address is not bracketed once more. -/
theorem not_bracketed (hn : IsHost n) (hds : ∀ c ∈ ds, c.isDigit = true) :
    ¬ (isIPV6 (n ++ ':' :: ds) = true ∧ '[' ∉ n ++ ':' :: ds) := by
  rintro ⟨hsix, hnone⟩
  rcases hn with ⟨v, rfl, -⟩ | ⟨-, hchars⟩
  · exact hnone List.mem_cons_self
  · rw [isIPV6_name (fun c hc => (hchars c hc).2.2) hds] at hsix
    cases hsix

/-- **A listen address is its own listen address.** -/
theorem Platform.Standard.hostPort_listen {platform : Platform} (hplatform : platform.Standard)
    {u : List Char} {v : HostPort} (hv : platform.hostPort u = some v) (hport : v.port ≤ 65535) :
    ∃ v', platform.hostPort v.listen = some v' ∧ v'.listen = v.listen := by
  obtain ⟨u', n, hn, hlisten⟩ : ∃ u' n, platform.urlHostname u' = some n ∧
      v.listen = n ++ ':' :: Nat.toDigits 10 v.port := by
    unfold Platform.hostPort at hv
    dsimp only at hv
    split at hv
    · cases hv
    · next n hn =>
        refine ⟨_, n, hn, ?_⟩
        obtain rfl := Option.some.inj hv
        dsimp only at hport ⊢
        rw [setPort_of_le hport, urlHost_port]
  have hhost := hplatform.isHost u' n hn
  have hds : ∀ c ∈ Nat.toDigits 10 v.port, c.isDigit = true := fun c hc =>
    Nat.isDigit_of_mem_toDigits (by decide) (by decide) hc
  have hne : Nat.toDigits 10 v.port ≠ [] := Nat.toDigits_ne_nil
  have hlt : v.port ≤ 2 ^ 53 := Nat.le_trans hport (by decide)
  have hread : platform.hostPort (n ++ ':' :: Nat.toDigits 10 v.port) = some {
      listen := urlHost (v.port = 80) n
        (setPort (platform.urlPort (n ++ ':' :: Nat.toDigits 10 v.port)) (f64Text v.port))
      hostname := if n[0]? = some '[' then (n.drop 1).dropLast else n
      port := v.port } := by
    simp only [Platform.hostPort, trim_listen hhost hds hne, removeProtocol_listen hhost hds,
      hplatform.filter_listen hhost hds, if_neg (not_bracketed hhost hds),
      matchPort_listen hhost hds hne,
      Nat.ofDigitChars_ten_toDigits, f64_of_le hlt, hplatform.again u' n hn v.port hport]
  rw [hlisten]
  refine ⟨_, hread, ?_⟩
  show urlHost _ _ _ = _
  rw [setPort_of_le hport, urlHost_port]

/-- A platform that knows names in lower case only. -/
def Platform.plain : Platform where
  urlHostname u :=
    let n := u.takeWhile (· ≠ ':')
    if n ≠ [] ∧ n.all (· ∈ "abcdefghijklmnopqrstuvwxyz0123456789-.".toList) = true ∧
        (u.drop (n.length + 1)).all Char.isDigit = true then some n
    else none
  urlPort _ := none
  toUpperCase cs := cs.map Char.toUpper

theorem Platform.plain_standard : plain.Standard := by
  have hname : ∀ u n, plain.urlHostname u = some n → n ≠ [] ∧
      ∀ c ∈ n, c ∈ "abcdefghijklmnopqrstuvwxyz0123456789-.".toList := by
    intro u n hn
    dsimp only [plain] at hn
    split at hn
    · next h =>
        obtain rfl := Option.some.inj hn
        exact ⟨h.1, fun c hc => of_decide_eq_true (List.all_eq_true.1 h.2.1 c hc)⟩
    · cases hn
  have hchars : ∀ c ∈ "abcdefghijklmnopqrstuvwxyz0123456789-.".toList,
      33 ≤ c.toNat ∧ c.toNat < 127 ∧ c ∉ [':', '/', '[', ']'] := by
    simp
  refine ⟨fun u n hn => .inr ⟨(hname u n hn).1, fun c hc => hchars c ((hname u n hn).2 c hc)⟩, ?_,
    fun cs _ => rfl⟩
  intro u n hn port _
  obtain ⟨hne, hall⟩ := hname u n hn
  have htake : (n ++ ':' :: Nat.toDigits 10 port).takeWhile (· ≠ ':') = n := by
    rw [List.takeWhile_append_of_pos, List.takeWhile_cons_of_neg (by simp), List.append_nil]
    intro c hc
    have hcolon := (hchars c (hall c hc)).2.2
    rw [List.mem_cons, not_or] at hcolon
    exact decide_eq_true hcolon.1
  have hdrop : (n ++ ':' :: Nat.toDigits 10 port).drop (n.length + 1) = Nat.toDigits 10 port := by
    rw [List.drop_append]
    simp
  dsimp only [plain]
  rw [htake, hdrop, if_pos]
  refine ⟨hne, List.all_eq_true.2 fun c hc => decide_eq_true (hall c hc),
    List.all_eq_true.2 fun c hc => ?_⟩
  exact Nat.isDigit_of_mem_toDigits (by decide) (by decide) hc

example : Platform.plain.hostPort "nats://h".toList = some ⟨"h:4222".toList, "h".toList, 4222⟩ :=
  by decide +kernel

example : Platform.plain.hostPort " ::FFFF:127.0.0.1 ".toList =
    some ⟨"127.0.0.1:4222".toList, "127.0.0.1".toList, 4222⟩ := by decide +kernel

end

end NatsClient.Reconnect
