import TransactionRelay.Proofs.Url.Advertised

namespace TransactionRelay
namespace Url

def endsAuthority (c : Char) : Bool := c == '/' || c == '?' || c == '#'

def authority (rest : List Char) : List Char := rest.takeWhile fun c => !endsAuthority c

def afterAuthority (rest : List Char) : List Char := rest.dropWhile fun c => !endsAuthority c

def afterUser (authority : List Char) : List Char := (authority.reverse.takeWhile (· ≠ '@')).reverse

def afterLiteral : List Char → List Char
  | '[' :: host => if ']' ∈ host then (host.dropWhile (· ≠ ']')).tail else '[' :: host
  | host => host

-- Behind the user and the literal address, the authority ends in a colon and digits.
def NamesPort (authority : List Char) : Prop :=
  ∃ front digits, afterLiteral (afterUser authority) = front ++ ':' :: digits ∧ digits ≠ [] ∧
    ∀ c ∈ digits, c.isDigit = true

-- The port is in its place: a url whose authority names one is left as it is, and any other has the port
-- behind its authority and loses the slashes at its end.
structure InPlace (port : UInt16) (scheme rest advertised : List Char) : Prop where
  named : NamesPort (authority rest) → advertised = scheme ++ mark ++ rest
  added : ¬ NamesPort (authority rest) →
    advertised = scheme ++ mark ++ authority rest ++ portText port ++ dropSlashes (afterAuthority rest)

variable {scheme rest text : List Char} {port : UInt16}

theorem afterLiteral_behind (text : List Char) : afterLiteral text <:+ text := by
  unfold afterLiteral
  split
  · split
    · exact (List.tail_suffix _).trans ((List.dropWhile_suffix _).trans (List.suffix_cons _ _))
    · exact List.suffix_rfl
  · exact List.suffix_rfl

theorem afterUser_behind (text : List Char) : afterUser text <:+ text := by
  rw [← List.reverse_prefix, afterUser, List.reverse_reverse]
  exact List.takeWhile_prefix _

theorem NamesPort.colon (names : NamesPort text) : ':' ∈ text := by
  obtain ⟨front, digits, ends, _⟩ := names
  refine ((afterLiteral_behind _).trans (afterUser_behind text)).mem ?_
  rw [ends]
  exact List.mem_append_right _ List.mem_cons_self

theorem authority_slashless (rest : List Char) : '/' ∉ authority rest := by
  intro slash
  cases List.mem_takeWhile_imp slash

theorem afterAuthority_colonless (rest behind : List Char) : afterAuthority rest ≠ ':' :: behind := by
  intro begins
  have stopped := List.head?_dropWhile_not (fun c => !endsAuthority c) rest
  rw [← afterAuthority, begins] at stopped
  cases stopped

theorem authority_joined (rest : List Char) : authority rest ++ afterAuthority rest = rest :=
  List.takeWhile_append_dropWhile

theorem host_authority (rest : List Char) :
    rest.takeWhile (· ≠ '/') = authority rest ++ (afterAuthority rest).takeWhile (· ≠ '/') ∧
      rest.dropWhile (· ≠ '/') = (afterAuthority rest).dropWhile (· ≠ '/') := by
  have passed : ∀ c ∈ authority rest, decide (c ≠ '/') = true :=
    fun c member => decide_eq_true fun slash => authority_slashless rest (slash ▸ member)
  constructor
  · rw [← List.takeWhile_append_of_pos passed, authority_joined]
  · have behind : (authority rest ++ afterAuthority rest).dropWhile (· ≠ '/') = _ :=
      List.dropWhile_append_of_pos passed
    rwa [authority_joined] at behind

theorem parts_authority (found : splitScheme url = some (scheme, rest)) :
    parts url = ⟨scheme ++ mark, authority rest ++ (afterAuthority rest).takeWhile (· ≠ '/'),
      (afterAuthority rest).dropWhile (· ≠ '/')⟩ := by
  rw [parts_some found, (host_authority rest).1, (host_authority rest).2]

-- Without a port of its own, a url is left as it is only where it should not be.
theorem kept_apart (scheme rest behind : List Char) (port : UInt16) :
    scheme ++ mark ++ rest ≠ scheme ++ mark ++ authority rest ++ portText port ++ behind := by
  intro same
  have cut : authority rest ++ afterAuthority rest = authority rest ++ (portText port ++ behind) := by
    rw [authority_joined]
    simpa only [List.append_assoc, List.append_cancel_left_eq] using same
  exact afterAuthority_colonless rest _ (List.append_cancel_left cut)

theorem added_apart {early late : List Char} (same : scheme ++ mark ++
    (authority rest ++ (afterAuthority rest).takeWhile (· ≠ '/')) ++ portText port ++ early =
      scheme ++ mark ++ authority rest ++ portText port ++ late) : StartsPath (afterAuthority rest) := by
  simp only [List.append_assoc, List.append_cancel_left_eq] at same
  have whole := List.takeWhile_append_dropWhile (p := (· ≠ '/')) (l := afterAuthority rest)
  cases between : (afterAuthority rest).takeWhile (· ≠ '/') with
  | nil =>
    rw [between, List.nil_append] at whole
    exact whole ▸ startsPath_dropWhile _
  | cons c more =>
    rw [between] at same whole
    cases (List.cons.inj same).1
    exact absurd whole.symm (afterAuthority_colonless rest _)

theorem advertised_in_place_iff (found : splitScheme url = some (scheme, rest)) (given : port ≠ 0) :
    InPlace port scheme rest (advertisedChars port url) ↔
      NamesPort (authority rest) ∨ ':' ∉ authority rest ∧ StartsPath (afterAuthority rest) := by
  obtain ⟨joined, _⟩ := splitScheme_some found
  have split := parts_authority found
  constructor
  · intro placed
    by_cases names : NamesPort (authority rest)
    · exact .inl names
    have added := placed.added names
    by_cases colon : ':' ∈ (parts url).host
    · rw [advertisedChars_kept (.inl colon), joined] at added
      exact absurd added (kept_apart _ _ _ _)
    · rw [advertisedChars_added colon given, split] at added
      rw [split] at colon
      exact .inr ⟨fun early => colon (List.mem_append_left _ early), added_apart added⟩
  · rintro (names | ⟨portless, starts⟩)
    · have colon : ':' ∈ (parts url).host := by
        rw [split]
        exact List.mem_append_left _ names.colon
      rw [advertisedChars_kept (.inl colon)]
      exact ⟨fun _ => joined, fun unnamed => absurd names unnamed⟩
    · obtain ⟨host, path⟩ := @cut_at_path [] (afterAuthority rest) List.not_mem_nil starts
      rw [List.nil_append] at host path
      rw [host, path, List.append_nil] at split
      rw [advertisedChars_added (by rw [split]; exact portless) given, split]
      exact ⟨fun names => absurd names.colon portless, fun _ => rfl⟩

theorem isWeb_scheme {url : String} (web : isWeb url = true) :
    ∃ scheme rest, url.toList = scheme ++ mark ++ rest ∧ ':' ∉ scheme := by
  rw [isWeb, Bool.or_eq_true, List.isPrefixOf_iff_prefix, List.isPrefixOf_iff_prefix] at web
  rcases web with ⟨rest, joined⟩ | ⟨rest, joined⟩
  · exact ⟨"http".toList, rest, joined.symm, by decide⟩
  · exact ⟨"https".toList, rest, joined.symm, by decide⟩

theorem splitScheme_first (plain : ':' ∉ scheme) (rest : List Char) :
    splitScheme (scheme ++ mark ++ rest) = some (scheme, rest) := by
  rw [List.append_assoc, splitScheme_past plain]
  exact congrArg (fun first => some (first, rest)) (List.append_nil scheme)

end Url

theorem validate_web {s : ServerSettings} (valid : s.validate = .ok ()) : Url.isWeb s.url = true := by
  cases web : Url.isWeb s.url with
  | true => rfl
  | false =>
    rw [ServerSettings.validate, web] at valid
    cases valid

-- The authority ends at a slash, a question mark or a number sign, but what is advertised goes by slashes and colons
-- alone: a colon of a user or of a literal address is taken for that of a port, and a query or a fragment right
-- behind the authority for a part of the host.
theorem port_in_place_iff (s : ServerSettings) (valid : s.validate = .ok ()) (given : 0 < s.port) :
    ∃ scheme rest, s.url.toList = scheme ++ Url.mark ++ rest ∧ ':' ∉ scheme ∧
      (Url.InPlace s.port scheme rest s.registrationUrl.toList ↔ Url.NamesPort (Url.authority rest) ∨
        ':' ∉ Url.authority rest ∧ Url.StartsPath (Url.afterAuthority rest)) := by
  obtain ⟨scheme, rest, joined, plain⟩ := Url.isWeb_scheme (validate_web valid)
  have found : Url.splitScheme s.url.toList = some (scheme, rest) := by
    rw [joined]
    exact Url.splitScheme_first plain rest
  have nonzero : s.port ≠ 0 := (UInt16.pos_iff_ne_zero).mp given
  refine ⟨scheme, rest, joined, plain, ?_⟩
  rw [ServerSettings.registrationUrl, Url.advertised, String.toList_ofList]
  exact Url.advertised_in_place_iff found nonzero

def frontedSettings : ServerSettings := { url := "https://relay@relay.example.com/api/" }

theorem fronted_port_in_place :
    frontedSettings.validate = .ok () ∧ 0 < frontedSettings.port ∧
      Url.InPlace frontedSettings.port "https".toList "relay@relay.example.com/api/".toList
        frontedSettings.registrationUrl.toList := by
  have valid : frontedSettings.validate = .ok () := by decide +kernel
  have given : 0 < frontedSettings.port := by decide
  refine ⟨valid, given, ?_⟩
  obtain ⟨scheme, rest, joined, plain, placed⟩ := port_in_place_iff frontedSettings valid given
  have found : Url.splitScheme frontedSettings.url.toList =
      some ("https".toList, "relay@relay.example.com/api/".toList) := by decide +kernel
  rw [joined, Url.splitScheme_first plain] at found
  cases found
  exact placed.mpr (.inr ⟨by decide, by decide⟩)

def queryingSettings : ServerSettings := { url := "http://relay.example.com?network=rsk" }

theorem querying_port_out_of_place :
    queryingSettings.validate = .ok () ∧ 0 < queryingSettings.port ∧
      queryingSettings.url.toList = "http".toList ++ Url.mark ++ "relay.example.com?network=rsk".toList ∧
      queryingSettings.registrationUrl = "http://relay.example.com?network=rsk:8090" ∧
      ¬ Url.InPlace queryingSettings.port "http".toList "relay.example.com?network=rsk".toList
        queryingSettings.registrationUrl.toList := by
  refine ⟨by decide +kernel, by decide, by decide +kernel, by decide +kernel, fun placed => ?_⟩
  have unnamed : ¬ Url.NamesPort (Url.authority "relay.example.com?network=rsk".toList) :=
    fun names => absurd names.colon (by decide +kernel)
  exact absurd (placed.added unnamed) (by decide +kernel)

end TransactionRelay
