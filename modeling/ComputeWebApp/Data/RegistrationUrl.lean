import ComputeWebApp.Library.RegexMatch
import ComputeWebApp.Library.Words
import Mathlib.Algebra.Ring.Int.Defs
import Mathlib.Algebra.Ring.Nat
import Mathlib.Data.List.TakeWhile

/-!
# Registration urls

`DatasetSocketServer::StartRegistration` checks an url with a regular expression, splits it at the
colon, narrows the port to 16 bits and listens on any address when the address cannot be parsed.
The texts that pass the check are the ones of a `Url` (`matches_iff`), and the endpoint is the one
that is written unless a number is out of range: a port that does not fit is reduced, and an octet
that does not fit opens any address (`registration_iff`).
-/

namespace ComputeWebApp.Data.RegistrationUrl

open RegexMatch RegexMatch.Expression Words

abbrev Text := List Char

/-! ## Starting the registration -/

def symbol (c : Char) : Expression Char := .one fun other => other = c

/-- `\d{1,high}` -/
def digits (high : ℕ) : Expression Char := .times Char.isDigit 1 high

/-- The regular expression of the address: a star or four numbers. -/
def addressRegex : Expression Char :=
  .alt (symbol '*')
    (.seq (digits 3) (.seq (symbol '.') (.seq (digits 3) (.seq (symbol '.')
      (.seq (digits 3) (.seq (symbol '.') (digits 3)))))))

def portRegex : Expression Char := .alt (symbol '*') (digits 5)

def urlRegex : Expression Char := .seq addressRegex (.seq (symbol ':') portRegex)

/-- The value of the digits that a text starts with. -/
def leadingNumber (text : Text) : ℕ := Nat.ofDigitChars 10 (text.takeWhile Char.isDigit) 0

def isSpace (c : Char) : Bool := c = ' ' || ('\t' ≤ c && c ≤ '\r')

/-- `std::atoi` -/
def atoi (text : Text) : ℤ :=
  match text.dropWhile isSpace with
  | '-' :: rest => -leadingNumber rest
  | '+' :: rest => leadingNumber rest
  | rest => leadingNumber rest

/-- The octets of an address. -/
structure Address where
  first : ℕ
  second : ℕ
  third : ℕ
  fourth : ℕ
  deriving DecidableEq, Repr

/-- The address of `tcp::v4()`. -/
def Address.any : Address := ⟨0, 0, 0, 0⟩

structure Endpoint where
  address : Address
  port : ℕ
  deriving DecidableEq, Repr

/-- What a call does; `undefined` stands for an index that is out of range. -/
inductive Registration
  | undefined
  | throws
  | opens (endpoint : Endpoint)
  deriving DecidableEq, Repr

/-- `StartRegistration`.  `fromString` is `asio::ip::address::from_string`, and `canOpen` tells
whether the acceptor can be constructed. -/
def startRegistration (fromString : Text → Option Address) (canOpen : Endpoint → Bool)
    (url : Text) : Registration :=
  if urlRegex.matchesWhole url = false then .throws
  else
    match (words ':' url)[0]?, (words ':' url)[1]? with
    | some rawIpAddress, some rawPort =>
        let port := (atoi rawPort % 2 ^ 16).toNat
        let endpoint : Endpoint :=
          match fromString rawIpAddress with
          | some ipAddress => ⟨ipAddress, port⟩
          | none => ⟨.any, port⟩
        if canOpen endpoint then .opens endpoint else .throws
    | _, _ => .undefined

/-! ## Urls -/

/-- A number of at most `high` digits. -/
structure Number (high : ℕ) where
  text : Text
  nonempty : 1 ≤ text.length
  short : text.length ≤ high
  digits : ∀ c ∈ text, c.isDigit = true

def Number.value {high : ℕ} (number : Number high) : ℕ := Nat.ofDigitChars 10 number.text 0

theorem Number.ext {high : ℕ} {number other : Number high} (h : number.text = other.text) :
    number = other := by
  obtain ⟨_, _, _, _⟩ := number
  cases h
  rfl

inductive Host
  | any
  | quad (first second third fourth : Number 3)

namespace Host

def text : Host → Text
  | any => ['*']
  | quad first second third fourth => join '.' [first.text, second.text, third.text, fourth.text]

def address : Host → Address
  | any => .any
  | quad first second third fourth => ⟨first.value, second.value, third.value, fourth.value⟩

/-- Its numbers are octets. -/
def InRange : Host → Prop
  | any => True
  | quad first second third fourth =>
      first.value ≤ 255 ∧ second.value ≤ 255 ∧ third.value ≤ 255 ∧ fourth.value ≤ 255

instance : ∀ host : Host, Decidable host.InRange
  | any => instDecidableTrue
  | quad _ _ _ _ => inferInstanceAs (Decidable (_ ∧ _ ∧ _ ∧ _))

end Host

inductive Port
  | any
  | number (digits : Number 5)

namespace Port

def text : Port → Text
  | any => ['*']
  | number digits => digits.text

def value : Port → ℕ
  | any => 0
  | number digits => digits.value

end Port

structure Url where
  host : Host
  port : Port

def Url.text (url : Url) : Text := join ':' [url.host.text, url.port.text]

def Url.endpoint (url : Url) : Endpoint := ⟨url.host.address, url.port.value⟩

/-- Its port fits 16 bits, and the numbers of its address are octets. -/
def Url.InRange (url : Url) : Prop := url.port.value < 2 ^ 16 ∧ url.host.InRange

/-- A call either throws or opens the endpoint that is written. -/
def Right (text : Text) (registration : Registration) : Prop :=
  registration = .throws ∨ ∃ url : Url, url.text = text ∧ registration = .opens url.endpoint

/-- The parser accepts the dotted quads with numbers up to 255. -/
structure ParsesQuads (fromString : Text → Option Address) : Prop where
  any : fromString Host.any.text = none
  quad : ∀ first second third fourth : Number 3,
    fromString (Host.quad first second third fourth).text =
      if (Host.quad first second third fourth).InRange then
        some (Host.quad first second third fourth).address
      else none

/-! ## The check -/

theorem Number.takes {high : ℕ} {text : Text} :
    (Expression.times Char.isDigit 1 high).Takes text ↔
      ∃ number : Number high, number.text = text := by
  constructor
  · rintro ⟨hnonempty, hshort, hdigits⟩
    exact ⟨⟨text, hnonempty, hshort, hdigits⟩, rfl⟩
  · rintro ⟨number, rfl⟩
    exact ⟨number.nonempty, number.short, number.digits⟩

theorem takes_symbol {c : Char} {text : Text} : (symbol c).Takes text ↔ text = [c] := by
  constructor
  · rintro ⟨other, rfl, h⟩
    rw [of_decide_eq_true h]
  · rintro rfl
    exact ⟨c, rfl, decide_eq_true rfl⟩

/-- A symbol between two texts. -/
theorem takes_separated {before after : Expression Char} {c : Char} {text : Text} :
    (before.seq ((symbol c).seq after)).Takes text ↔
      ∃ first second, text = first ++ c :: second ∧ before.Takes first ∧ after.Takes second := by
  constructor
  · rintro ⟨first, _, rfl, hfirst, _, second, rfl, hsymbol, hsecond⟩
    rw [takes_symbol.mp hsymbol]
    exact ⟨first, second, rfl, hfirst, hsecond⟩
  · rintro ⟨first, second, rfl, hfirst, hsecond⟩
    exact ⟨first, c :: second, rfl, hfirst, [c], second, rfl, takes_symbol.mpr rfl, hsecond⟩

theorem takes_address {text : Text} :
    addressRegex.Takes text ↔ ∃ host : Host, host.text = text := by
  constructor
  · rintro (hany | hquad)
    · exact ⟨.any, (takes_symbol.mp hany).symm⟩
    · obtain ⟨_, _, rfl, hfirst, hquad⟩ := takes_separated.mp hquad
      obtain ⟨_, _, rfl, hsecond, hquad⟩ := takes_separated.mp hquad
      obtain ⟨_, _, rfl, hthird, hfourth⟩ := takes_separated.mp hquad
      obtain ⟨first, rfl⟩ := Number.takes.mp hfirst
      obtain ⟨second, rfl⟩ := Number.takes.mp hsecond
      obtain ⟨third, rfl⟩ := Number.takes.mp hthird
      obtain ⟨fourth, rfl⟩ := Number.takes.mp hfourth
      exact ⟨.quad first second third fourth, by simp [Host.text, join_cons]⟩
  · rintro ⟨host, rfl⟩
    cases host with
    | any => exact .inl (takes_symbol.mpr rfl)
    | quad first second third fourth =>
        refine .inr (takes_separated.mpr ⟨first.text, _, ?_, Number.takes.mpr ⟨first, rfl⟩,
          takes_separated.mpr ⟨second.text, _, rfl, Number.takes.mpr ⟨second, rfl⟩,
            takes_separated.mpr ⟨third.text, fourth.text, rfl, Number.takes.mpr ⟨third, rfl⟩,
              Number.takes.mpr ⟨fourth, rfl⟩⟩⟩⟩)
        simp [Host.text, join_cons]

theorem takes_port {text : Text} : portRegex.Takes text ↔ ∃ port : Port, port.text = text := by
  constructor
  · rintro (hany | hnumber)
    · exact ⟨.any, (takes_symbol.mp hany).symm⟩
    · obtain ⟨number, rfl⟩ := Number.takes.mp hnumber
      exact ⟨.number number, rfl⟩
  · rintro ⟨port, rfl⟩
    cases port with
    | any => exact .inl (takes_symbol.mpr rfl)
    | number digits => exact .inr (Number.takes.mpr ⟨digits, rfl⟩)

/-- The texts that pass the check. -/
theorem matches_iff {text : Text} :
    urlRegex.matchesWhole text = true ↔ ∃ url : Url, url.text = text := by
  rw [matchesWhole_iff, urlRegex, takes_separated]
  constructor
  · rintro ⟨_, _, rfl, hhost, hport⟩
    obtain ⟨host, rfl⟩ := takes_address.mp hhost
    obtain ⟨port, rfl⟩ := takes_port.mp hport
    exact ⟨⟨host, port⟩, by simp [Url.text, join_cons]⟩
  · rintro ⟨url, rfl⟩
    exact ⟨url.host.text, url.port.text, by simp [Url.text, join_cons],
      takes_address.mpr ⟨url.host, rfl⟩, takes_port.mpr ⟨url.port, rfl⟩⟩

/-! ## Splitting -/

theorem Number.notMem {high : ℕ} (number : Number high) {c : Char} (hc : c.isDigit = false) :
    c ∉ number.text :=
  fun hmem => Bool.false_ne_true (hc.symm.trans (number.digits c hmem))

theorem Number.ne_nil {high : ℕ} (number : Number high) : number.text ≠ [] :=
  List.length_pos_iff.mp number.nonempty

theorem words_quad (first second third fourth : Number 3) :
    words '.' (Host.quad first second third fourth).text =
      [first.text, second.text, third.text, fourth.text] := by
  refine words_join_iff.mpr ⟨?_, ?_⟩
  · simp [first.notMem, second.notMem, third.notMem, fourth.notMem]
  · simp [fourth.ne_nil]

theorem Host.notMem_colon (host : Host) : ':' ∉ host.text := by
  cases host with
  | any => decide
  | quad first second third fourth =>
      simp [Host.text, join_cons, first.notMem, second.notMem, third.notMem, fourth.notMem]

theorem words_url (url : Url) : words ':' url.text = [url.host.text, url.port.text] := by
  refine words_join_iff.mpr ⟨?_, ?_⟩
  · have hport : ':' ∉ url.port.text := by
      cases url.port with
      | any => decide
      | number digits => exact digits.notMem rfl
    simp [url.host.notMem_colon, hport]
  · cases url.port with
    | any => simp [Port.text]
    | number digits => simp [Port.text, digits.ne_nil]

theorem Host.text_injective {host other : Host} (h : host.text = other.text) : host = other := by
  have hany : words '.' Host.any.text = [['*']] := rfl
  have hwords := congrArg (words '.') h
  cases host with
  | any =>
      cases other with
      | any => rfl
      | quad first second third fourth =>
          rw [hany, words_quad] at hwords
          simp at hwords
  | quad first second third fourth =>
      cases other with
      | any =>
          rw [hany, words_quad] at hwords
          simp at hwords
      | quad first' second' third' fourth' =>
          rw [words_quad, words_quad] at hwords
          simp only [List.cons.injEq, and_true] at hwords
          rw [Number.ext hwords.1, Number.ext hwords.2.1, Number.ext hwords.2.2.1,
            Number.ext hwords.2.2.2]

theorem Port.text_injective {port other : Port} (h : port.text = other.text) : port = other := by
  have hstar (digits : Number 5) : digits.text ≠ ['*'] := by
    intro heq
    exact digits.notMem (c := '*') rfl (heq ▸ List.mem_singleton_self _)
  cases port with
  | any =>
      cases other with
      | any => rfl
      | number digits => exact absurd h.symm (hstar digits)
  | number digits =>
      cases other with
      | any => exact absurd h (hstar digits)
      | number digits' =>
          obtain rfl : digits = digits' := Number.ext h
          rfl

/-- An url can be read in one way. -/
theorem Url.text_injective {url other : Url} (h : url.text = other.text) : url = other := by
  have hwords := (words_url url).symm.trans ((congrArg (words ':') h).trans (words_url other))
  simp only [List.cons.injEq, and_true] at hwords
  have hhost := Host.text_injective hwords.1
  have hport := Port.text_injective hwords.2
  cases url
  cases other
  cases hhost
  cases hport
  rfl

/-! ## The port -/

theorem isSpace_of_isDigit {c : Char} (h : c.isDigit = true) : isSpace c = false := by
  have hge : '0' ≤ c := by
    simp only [Char.isDigit, Bool.and_eq_true, decide_eq_true_eq] at h
    exact h.1
  rw [isSpace, Bool.or_eq_false_iff, Bool.and_eq_false_iff]
  refine ⟨decide_eq_false ?_, .inr (decide_eq_false fun hle => ?_)⟩
  · rintro rfl
    cases h
  · exact absurd (Char.le_trans hge hle) (by decide)

theorem leadingNumber_of_digits {text : Text} (h : ∀ c ∈ text, c.isDigit = true) :
    leadingNumber text = Nat.ofDigitChars 10 text 0 := by
  rw [leadingNumber, List.takeWhile_eq_self_iff.mpr h]

theorem atoi_digits {text : Text} (hne : text ≠ []) (h : ∀ c ∈ text, c.isDigit = true) :
    atoi text = Nat.ofDigitChars 10 text 0 := by
  obtain ⟨c, rest, rfl⟩ := List.exists_cons_of_ne_nil hne
  have hc := h c List.mem_cons_self
  have hdrop : (c :: rest).dropWhile isSpace = c :: rest := by
    rw [List.dropWhile_cons_of_neg (by rw [isSpace_of_isDigit hc]; exact Bool.false_ne_true)]
  unfold atoi
  rw [hdrop, ← leadingNumber_of_digits h]
  split
  · rename_i heq
    cases heq
    cases hc
  · rename_i heq
    cases heq
    cases hc
  · rfl

theorem atoi_port (port : Port) : atoi port.text = port.value := by
  cases port with
  | any => rfl
  | number digits => exact atoi_digits digits.ne_nil digits.digits

/-! ## The endpoint -/

section Endpoint

variable {fromString : Text → Option Address}

/-- The endpoint of an url: a port that does not fit is reduced, and an address that cannot be
parsed is any address. -/
def opened (fromString : Text → Option Address) (url : Url) : Endpoint :=
  ⟨(fromString url.host.text).getD .any, url.port.value % 2 ^ 16⟩

theorem startRegistration_url (canOpen : Endpoint → Bool) (url : Url) :
    startRegistration fromString canOpen url.text =
      if canOpen (opened fromString url) then .opens (opened fromString url) else .throws := by
  have hport : ((url.port.value : ℤ) % 2 ^ 16).toNat = url.port.value % 2 ^ 16 := by omega
  have hmatches : urlRegex.matchesWhole url.text = true := matches_iff.mpr ⟨url, rfl⟩
  rw [startRegistration, if_neg (by rw [hmatches]; exact Bool.noConfusion), words_url]
  simp only [List.getElem?_cons_zero, List.getElem?_cons_succ, atoi_port, hport, opened]
  rcases Option.eq_none_or_eq_some (fromString url.host.text) with haddress | ⟨address, haddress⟩ <;>
    simp only [haddress, Option.getD]

/-- Every other text is refused. -/
theorem startRegistration_refused (canOpen : Endpoint → Bool) {text : Text}
    (h : ¬∃ url : Url, url.text = text) :
    startRegistration fromString canOpen text = .throws := by
  rw [startRegistration, if_pos (Bool.eq_false_iff.mpr (mt matches_iff.mp h))]

/-- The address is the one that is written if its numbers are octets. -/
theorem address_eq_iff (hparse : ParsesQuads fromString) (host : Host) :
    (fromString host.text).getD .any = host.address ↔ host.InRange := by
  cases host with
  | any =>
      rw [hparse.any]
      exact iff_of_true rfl trivial
  | quad first second third fourth =>
      rw [hparse.quad]
      split
      · rename_i hrange
        exact iff_of_true rfl hrange
      · rename_i hrange
        refine iff_of_false (fun hany => hrange ?_) hrange
        simp only [Option.getD_none, Address.any, Host.address, Address.mk.injEq] at hany
        simp only [Host.InRange]
        omega

theorem opened_eq_iff (hparse : ParsesQuads fromString) (url : Url) :
    opened fromString url = url.endpoint ↔ url.InRange := by
  rw [opened, Url.endpoint, Endpoint.mk.injEq, address_eq_iff hparse, Nat.mod_eq_iff_lt (by decide)]
  exact and_comm

/-- **Registration urls.**  An index is never out of range, and a call either throws or opens the
endpoint that is written, whatever the acceptor does, if and only if the port of the url is less
than `2 ^ 16` and the numbers of its address are at most 255. -/
theorem registration_iff (hparse : ParsesQuads fromString) (text : Text) :
    (∀ canOpen, startRegistration fromString canOpen text ≠ .undefined) ∧
      ((∀ canOpen, Right text (startRegistration fromString canOpen text)) ↔
        ∀ url : Url, url.text = text → url.InRange) := by
  by_cases h : ∃ url : Url, url.text = text
  · obtain ⟨url, rfl⟩ := h
    constructor
    · intro canOpen
      rw [startRegistration_url]
      split <;> nofun
    · constructor
      · -- the acceptor can open every endpoint
        intro hright other hother
        obtain rfl := Url.text_injective hother
        have hopens := hright fun _ => true
        rw [startRegistration_url, if_pos rfl] at hopens
        obtain hthrows | ⟨written, htext, hopens⟩ := hopens
        · cases hthrows
        · obtain rfl := Url.text_injective htext
          exact (opened_eq_iff hparse written).mp (Registration.opens.inj hopens)
      · intro hrange canOpen
        rw [startRegistration_url, (opened_eq_iff hparse url).mpr (hrange url rfl)]
        split
        · exact .inr ⟨url, rfl, rfl⟩
        · exact .inl rfl
  · constructor
    · intro canOpen
      rw [startRegistration_refused canOpen h]
      nofun
    · refine iff_of_true (fun canOpen => .inl (startRegistration_refused canOpen h)) ?_
      exact fun url htext => absurd ⟨url, htext⟩ h

/-! ## A parser -/

/-- The octets of four texts of digits. -/
def octets : List Text → Option Address
  | [first, second, third, fourth] =>
      let value (text : Text) : ℕ := Nat.ofDigitChars 10 text 0
      if [first, second, third, fourth].all (fun text => text ≠ [] && text.all Char.isDigit) &&
          [first, second, third, fourth].all (fun text => value text ≤ 255) then
        some ⟨value first, value second, value third, value fourth⟩
      else none
  | _ => none

/-- Dotted quads with numbers up to 255. -/
def dottedQuad (text : Text) : Option Address := octets (words '.' text)

theorem parsesQuads_dottedQuad : ParsesQuads dottedQuad where
  any := rfl
  quad first second third fourth := by
    have hdigits (number : Number 3) : (∀ c ∈ number.text, c.isDigit = true) ↔ True :=
      iff_true_intro number.digits
    rw [dottedQuad, words_quad, octets]
    simp only [ne_eq, Number.ne_nil, not_false_eq_true, decide_true, Bool.true_and, List.all_cons,
      List.all_nil, Bool.and_true, Bool.and_eq_true, List.all_eq_true, hdigits, and_self, true_and,
      decide_eq_true_eq, Host.address, Number.value]
    exact if_congr Iff.rfl rfl rfl

/-- The number of one digit. -/
def digit (c : Char) (h : c.isDigit = true) : Number 3 where
  text := [c]
  nonempty := le_rfl
  short := Nat.le_add_left 1 2
  digits := by simpa using h

/-- The address 1.2.3.4 with the given port. -/
def urlWithPort (port : Port) : Url :=
  ⟨.quad (digit '1' rfl) (digit '2' rfl) (digit '3' rfl) (digit '4' rfl), port⟩

theorem registration_iff_any_port :
    Right ['1', '.', '2', '.', '3', '.', '4', ':', '*'] (startRegistration dottedQuad
      (fun _ => true) ['1', '.', '2', '.', '3', '.', '4', ':', '*']) := by
  refine (registration_iff parsesQuads_dottedQuad _).2.mpr (fun url htext => ?_) _
  obtain rfl : url = urlWithPort .any := Url.text_injective htext
  exact ⟨by decide, by decide⟩

/-- The port 70000 is reduced to 4464. -/
theorem registration_reduces_port :
    ¬Right ['1', '.', '2', '.', '3', '.', '4', ':', '7', '0', '0', '0', '0']
        (startRegistration dottedQuad (fun _ => true)
          ['1', '.', '2', '.', '3', '.', '4', ':', '7', '0', '0', '0', '0']) ∧
      startRegistration dottedQuad (fun _ => true)
          ['1', '.', '2', '.', '3', '.', '4', ':', '7', '0', '0', '0', '0'] =
        .opens ⟨⟨1, 2, 3, 4⟩, 4464⟩ := by
  let port : Number 5 :=
    ⟨['7', '0', '0', '0', '0'], by decide, by decide, List.all_eq_true.mp (by decide)⟩
  have hport : port.value % 2 ^ 16 = 4464 := by
    have hvalue : port.value = 70000 := by decide
    omega
  have haddress : (dottedQuad (urlWithPort (.number port)).host.text).getD .any = ⟨1, 2, 3, 4⟩ :=
    (address_eq_iff parsesQuads_dottedQuad _).mpr (by decide)
  have hopens : startRegistration dottedQuad (fun _ => true) (urlWithPort (.number port)).text =
      .opens ⟨⟨1, 2, 3, 4⟩, 4464⟩ := by
    rw [startRegistration_url, if_pos rfl, opened, haddress]
    exact congrArg (fun number => Registration.opens ⟨_, number⟩) hport
  refine ⟨?_, hopens⟩
  show ¬Right (urlWithPort (.number port)).text
    (startRegistration dottedQuad (fun _ => true) (urlWithPort (.number port)).text)
  rw [hopens]
  rintro (hthrows | ⟨url, htext, hurl⟩)
  · cases hthrows
  · obtain rfl : url = urlWithPort (.number port) := Url.text_injective htext
    exact absurd (Registration.opens.inj hurl) (by decide)

end Endpoint

end ComputeWebApp.Data.RegistrationUrl
