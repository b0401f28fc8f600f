import Mathlib.Data.List.TakeWhile
import TransactionRelay.Registration.Manager

namespace TransactionRelay
namespace Url

def mark : List Char := [':', '/', '/']

variable {url front rest path : List Char}

theorem splitScheme_some {scheme : List Char} (found : splitScheme url = some (scheme, rest)) :
    url = scheme ++ mark ++ rest ∧ ∀ other, splitScheme (scheme ++ mark ++ other) = some (scheme, other) := by
  fun_induction splitScheme url generalizing scheme with
  | case1 => cases found
  | case2 after =>
    cases found
    exact ⟨rfl, fun other => rfl⟩
  | case3 c after unmarked ih =>
    obtain ⟨⟨inner, rest⟩, earlier, same⟩ := Option.map_eq_some_iff.mp found
    cases same
    obtain ⟨joined, again⟩ := ih earlier
    refine ⟨by rw [joined]; rfl, fun other => ?_⟩
    -- The first two characters stand in the scheme and its mark, whatever comes behind.
    have still : ∀ tail, c = ':' → inner ++ mark ++ other = '/' :: '/' :: tail → False := by
      intro tail colon slashes
      match inner, slashes with
      | [], slashes => cases slashes
      | [_], slashes => cases slashes
      | _ :: _ :: more, slashes =>
        cases slashes
        exact unmarked _ colon joined
    change splitScheme (c :: (inner ++ mark ++ other)) = _
    rw [splitScheme.eq_3 _ _ still, again]
    rfl

theorem splitScheme_front (unmarked : splitScheme (front ++ rest) = none) : splitScheme front = none := by
  cases found : splitScheme front with
  | none => rfl
  | some parts =>
    obtain ⟨joined, again⟩ := splitScheme_some found
    rw [joined, List.append_assoc, again] at unmarked
    cases unmarked

theorem splitScheme_past (plain : ':' ∉ front) (rest : List Char) : splitScheme (front ++ rest) =
    (splitScheme rest).map fun (scheme, after) => (front ++ scheme, after) := by
  induction front with
  | nil => exact Option.map_id'.symm
  | cons c more ih =>
    rw [List.mem_cons, not_or] at plain
    rw [List.cons_append, splitScheme.eq_3 _ _ fun _ colon _ => plain.1 colon.symm, ih plain.2, Option.map_map]
    rfl

theorem splitScheme_colon {c : Char} (other : c ≠ '/') (rest : List Char) : splitScheme (':' :: c :: rest) =
    (splitScheme (c :: rest)).map fun (scheme, after) => (':' :: scheme, after) :=
  splitScheme.eq_3 _ _ fun _ _ slashes => other (List.cons.inj slashes).1

def StartsPath (text : List Char) : Prop := ∀ c ∈ text.head?, c = '/'

instance : DecidablePred StartsPath
  | [] => isTrue fun _ first => nomatch first
  | c :: _ => decidable_of_iff (c = '/')
      ⟨fun slash _ first => Option.some.inj first ▸ slash, fun starts => starts c rfl⟩

theorem StartsPath.earlier (starts : StartsPath path) (before : front <+: path) : StartsPath front := by
  intro c first
  obtain ⟨behind, rfl⟩ := before
  cases front with
  | nil => cases first
  | cons _ _ => exact starts c first

theorem startsPath_dropWhile (text : List Char) : StartsPath (text.dropWhile (· ≠ '/')) := by
  intro c first
  have stopped := List.head?_dropWhile_not (fun c : Char => decide (c ≠ '/')) text
  rw [first] at stopped
  simpa using stopped

theorem cut_at_path (inner : '/' ∉ front) (starts : StartsPath path) :
    (front ++ path).takeWhile (· ≠ '/') = front ∧ (front ++ path).dropWhile (· ≠ '/') = path := by
  have passed : ∀ c ∈ front, decide (c ≠ '/') = true :=
    fun c member => decide_eq_true fun slash => inner (slash ▸ member)
  rw [List.takeWhile_append_of_pos passed, List.dropWhile_append_of_pos passed]
  cases path with
  | nil => exact ⟨List.append_nil _, rfl⟩
  | cons c more =>
    cases starts c rfl
    exact ⟨List.append_nil _, rfl⟩

theorem dropSlashes_front (text : List Char) : dropSlashes text <+: text := by
  rw [← List.reverse_suffix, dropSlashes, Text.dropEnd, List.reverse_reverse]
  exact List.dropWhile_suffix _

theorem parts_some {scheme : List Char} (found : splitScheme url = some (scheme, rest)) :
    parts url = ⟨scheme ++ mark, rest.takeWhile (· ≠ '/'), rest.dropWhile (· ≠ '/')⟩ := by
  rw [parts, found]
  rfl

theorem parts_none (unmarked : splitScheme url = none) :
    parts url = ⟨[], url.takeWhile (· ≠ '/'), url.dropWhile (· ≠ '/')⟩ := by
  rw [parts, unmarked]

def portText (port : UInt16) : List Char := ':' :: Text.decimal port.toNat

theorem decimal_digits (n : Nat) : ∀ c ∈ Text.decimal n, c.isDigit = true :=
  fun _ member => Nat.isDigit_of_mem_toDigits (by decide) (by decide) member

theorem decimal_plain {n : Nat} {c : Char} (other : c.isDigit = false) : c ∉ Text.decimal n := by
  intro member
  rw [decimal_digits n c member] at other
  cases other

theorem portText_plain (port : UInt16) : '/' ∉ portText port := by
  rw [portText, List.mem_cons, not_or]
  exact ⟨by decide, decimal_plain (by decide)⟩

-- A port and a path hold no mark that the path does not hold.
theorem splitScheme_portText (port : UInt16) (unmarked : splitScheme path = none) :
    splitScheme (portText port ++ path) = none := by
  rw [portText, List.cons_append]
  have digits : splitScheme (Text.decimal port.toNat ++ path) = none := by
    rw [splitScheme_past (decimal_plain (by decide)), unmarked]
    rfl
  cases first : Text.decimal port.toNat with
  | nil => exact absurd first Nat.toDigits_ne_nil
  | cons c more =>
    have other : c ≠ '/' := by
      rintro rfl
      exact decimal_plain (by decide) (first ▸ List.mem_cons_self)
    rw [first] at digits
    rw [List.cons_append, splitScheme_colon other, ← List.cons_append, digits]
    rfl

theorem cut_with_port (port : UInt16) (text : List Char) :
    (text.takeWhile (· ≠ '/') ++ portText port ++ dropSlashes (text.dropWhile (· ≠ '/'))).takeWhile (· ≠ '/') =
        text.takeWhile (· ≠ '/') ++ portText port ∧
      (text.takeWhile (· ≠ '/') ++ portText port ++ dropSlashes (text.dropWhile (· ≠ '/'))).dropWhile (· ≠ '/') =
        dropSlashes (text.dropWhile (· ≠ '/')) := by
  refine cut_at_path ?_ ((startsPath_dropWhile text).earlier (dropSlashes_front _))
  rw [List.mem_append, not_or]
  exact ⟨fun slash => by simpa using List.mem_takeWhile_imp slash, portText_plain port⟩

-- A text without a mark has none with a port: none in the host, for that has no colon, and none in the path.
theorem unmarked_with_port (port : UInt16) (unmarked : splitScheme url = none)
    (portless : ':' ∉ url.takeWhile (· ≠ '/')) : splitScheme (url.takeWhile (· ≠ '/') ++ portText port ++
      dropSlashes (url.dropWhile (· ≠ '/'))) = none := by
  have behind : splitScheme (url.dropWhile (· ≠ '/')) = none := by
    have joined := splitScheme_past portless (url.dropWhile (· ≠ '/'))
    rw [List.takeWhile_append_dropWhile, unmarked] at joined
    exact Option.map_eq_none_iff.mp joined.symm
  have kept : splitScheme (dropSlashes (url.dropWhile (· ≠ '/'))) = none := by
    obtain ⟨slashes, joined⟩ := dropSlashes_front (url.dropWhile (· ≠ '/'))
    rw [← joined] at behind
    exact splitScheme_front behind
  rw [List.append_assoc, splitScheme_past portless, splitScheme_portText port kept]
  rfl

theorem parts_advertised (port : UInt16) (portless : ':' ∉ (parts url).host) :
    parts ((parts url).scheme ++ (parts url).host ++ portText port ++ dropSlashes (parts url).path) =
      ⟨(parts url).scheme, (parts url).host ++ portText port, dropSlashes (parts url).path⟩ := by
  cases found : splitScheme url with
  | some halves =>
    obtain ⟨scheme, rest⟩ := halves
    obtain ⟨_, again⟩ := splitScheme_some found
    obtain ⟨host, path⟩ := cut_with_port port rest
    rw [parts_some found, List.append_assoc, List.append_assoc, parts_some (again _), ← List.append_assoc,
      host, path]
  | none =>
    rw [parts_none found] at portless ⊢
    obtain ⟨host, path⟩ := cut_with_port port url
    rw [List.nil_append, parts_none (unmarked_with_port port found portless), host, path]

theorem advertisedChars_kept {port : UInt16} (kept : ':' ∈ (parts url).host ∨ port = 0) :
    advertisedChars port url = url := by
  rw [advertisedChars, if_pos]
  rw [Bool.or_eq_true, List.contains_iff_mem, beq_iff_eq]
  exact kept

theorem advertisedChars_added {port : UInt16} (portless : ':' ∉ (parts url).host) (given : port ≠ 0) :
    advertisedChars port url =
      (parts url).scheme ++ (parts url).host ++ portText port ++ dropSlashes (parts url).path := by
  rw [advertisedChars, if_neg]
  · simp [portText]
  · rw [Bool.or_eq_true, List.contains_iff_mem, beq_iff_eq]
    exact not_or.mpr ⟨portless, given⟩

theorem advertisedChars_again (port : UInt16) (url : List Char) :
    advertisedChars port (advertisedChars port url) = advertisedChars port url := by
  by_cases kept : ':' ∈ (parts url).host ∨ port = 0
  · rw [advertisedChars_kept kept, advertisedChars_kept kept]
  · rw [not_or] at kept
    refine advertisedChars_kept (.inl ?_)
    rw [advertisedChars_added kept.1 kept.2, parts_advertised port kept.1]
    exact List.mem_append_right _ List.mem_cons_self

theorem advertised_again (port : UInt16) (url : String) :
    advertised port (advertised port url) = advertised port url := by
  rw [advertised, advertised, String.toList_ofList, advertisedChars_again]

end Url

-- The advertised url has its scheme where it was and a host that names a port, so it is advertised as it is. The hub's
-- record is as correct under such settings as it was before.
theorem advertising_again_changes_nothing (s : ServerSettings) :
    { s with url := s.registrationUrl }.registrationUrl = s.registrationUrl ∧
      ∀ m : Manager, { m with settings := { s with url := s.registrationUrl } }.registrationCorrect =
        { m with settings := s }.registrationCorrect := by
  have same : { s with url := s.registrationUrl }.registrationUrl = s.registrationUrl :=
    Url.advertised_again s.port s.url
  refine ⟨same, fun m => ?_⟩
  unfold Manager.registrationCorrect
  rw [same]

end TransactionRelay
