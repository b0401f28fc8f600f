import Mathlib.Data.List.Basic
import TransactionRelay.LogFile.Path

namespace TransactionRelay.Path

variable {path name : List Char}

theorem segments_eq_splitOn (path : List Char) : segments path = path.splitOn '/' := by
  induction path with
  | nil => rfl
  | cons c rest ih =>
    rw [segments, List.splitOn_cons_eq_if_modifyHead, ih]
    by_cases slash : c = '/'
    · rw [if_pos slash, if_pos (beq_iff_eq.mpr slash)]
    · rw [if_neg slash, if_neg (mt beq_iff_eq.mp slash)]
      cases rows : rest.splitOn '/' with
      | nil => exact absurd rows (List.splitOn_ne_nil '/' rest)
      | cons segment more => rfl

theorem segments_plain (plain : '/' ∉ name) : segments name = [name] := by
  rw [segments_eq_splitOn, List.splitOn_eq_singleton plain]

theorem segments_beneath (path : List Char) (plain : '/' ∉ name) :
    segments (path ++ '/' :: name) = segments path ++ [name] := by
  rw [segments_eq_splitOn, List.splitOn_append_cons_self, List.splitOn_eq_singleton plain, segments_eq_splitOn]

theorem segments_slashless : ∀ segment ∈ segments path, '/' ∉ segment := by
  induction path with
  | nil => exact List.forall_mem_singleton.mpr List.not_mem_nil
  | cons c rest ih =>
    rw [segments]
    by_cases slash : c = '/'
    · rw [if_pos slash]
      exact List.forall_mem_cons.mpr ⟨List.not_mem_nil, ih⟩
    · rw [if_neg slash]
      have other : '/' ∉ [c] := by simpa using Ne.symm slash
      cases rows : segments rest with
      | nil => exact List.forall_mem_singleton.mpr other
      | cons segment more =>
        obtain ⟨first, others⟩ := List.forall_mem_cons.mp (rows ▸ ih)
        exact List.forall_mem_cons.mpr ⟨List.not_mem_cons_of_ne_of_not_mem (Ne.symm slash) first, others⟩

theorem dropIdle_suffix (rows : List (List Char)) : dropIdle rows <:+ rows := by
  induction rows with
  | nil => exact List.suffix_rfl
  | cons segment before ih =>
    rw [dropIdle]
    split
    · exact List.suffix_rfl
    · exact ih.trans (List.suffix_cons segment before)

theorem dropIdle_head (rows : List (List Char)) :
    dropIdle rows = [] ∨ ∃ last before, dropIdle rows = last :: before ∧ isComponent before.isEmpty last = true := by
  induction rows with
  | nil => exact .inl rfl
  | cons segment before ih =>
    rw [dropIdle]
    split
    next counts => exact .inr ⟨segment, before, rfl, counts⟩
    next => exact ih

theorem dropIdle_idem (rows : List (List Char)) : dropIdle (dropIdle rows) = dropIdle rows := by
  rcases dropIdle_head rows with none | ⟨last, before, form, counts⟩
  · rw [none]
    rfl
  · rw [form, dropIdle, if_pos counts]

-- A name that neither stays nor goes up.
structure Names (name : List Char) : Prop where
  slashless : '/' ∉ name
  held : name ≠ []
  moves : name ≠ ['.'] ∧ name ≠ ['.', '.']

theorem Names.counts (names : Names name) (first : Bool) : isComponent first name = true := by
  have held : name.isEmpty = false := by simpa using names.held
  have moves : (name != ['.']) = true := bne_iff_ne.mpr names.moves.1
  rw [isComponent, held, moves]
  rfl

def above (path : List Char) : List (List Char) := dropIdle (backwards path).tail

theorem above_slashless : ∀ segment ∈ above path, '/' ∉ segment := by
  intro segment member
  have listed := (dropIdle_suffix _).subset member
  have back := (dropIdle_suffix _).subset (List.mem_of_mem_tail listed)
  exact segments_slashless segment (List.mem_reverse.mp back)

theorem intercalate_last (rows : List (List Char)) (last : List Char) :
    ∃ front, List.intercalate ['/'] (rows ++ [last]) = front ++ last := by
  induction rows with
  | nil => exact ⟨[], List.intercalate_singleton⟩
  | cons row rest ih =>
    obtain ⟨front, form⟩ := ih
    have more : rest ++ [last] ≠ [] := List.append_ne_nil_of_right_ne_nil rest (List.cons_ne_nil last [])
    refine ⟨row ++ ['/'] ++ front, ?_⟩
    rw [List.cons_append, List.intercalate_cons_of_ne_nil more, form, List.append_assoc, List.append_assoc,
      List.append_assoc]

-- A path made of segments ends like the last of them, so another name goes behind a slash.
theorem push_ofBackwards {last : List Char} {before : List (List Char)} (held : last ≠ []) (slashless : '/' ∉ last)
    (name : List Char) : push (ofBackwards (last :: before)) name = ofBackwards (last :: before) ++ '/' :: name := by
  obtain ⟨front, form⟩ := intercalate_last before.reverse last
  have whole : ofBackwards (last :: before) = front ++ last := by rw [ofBackwards, List.reverse_cons, form]
  have ending : (front ++ last).getLast? ≠ some '/' := by
    rw [List.getLast?_append_of_ne_nil _ held, List.getLast?_eq_some_getLast held]
    exact fun same => slashless (Option.some.inj same ▸ List.getLast_mem held)
  have neither : ((front ++ last).isEmpty || (front ++ last).getLast? == some '/') = false := by
    rw [beq_eq_false_iff_ne.mpr ending, Bool.or_false, List.isEmpty_eq_false_iff]
    exact List.append_ne_nil_of_right_ne_nil _ held
  rw [whole, push, neither, if_neg Bool.false_ne_true, List.append_assoc]
  rfl

theorem segments_ofBackwards {rows : List (List Char)} (held : rows ≠ []) (slashless : ∀ row ∈ rows, '/' ∉ row) :
    segments (ofBackwards rows) = rows.reverse := by
  rw [segments_eq_splitOn, ofBackwards, List.splitOn_intercalate '/' (by simpa using slashless) (by simpa using held)]

-- The segments in front of any name that is put in the place of the last one.
def front (path : List Char) : List (List Char) :=
  if (above path).isEmpty && path.head? == some '/' then [[]] else (above path).reverse

theorem parent_kinds (path : List Char) :
    (above path = [] ∧ front path = [[]] ∧ parent path = ['/']) ∨
    (above path = [] ∧ front path = [] ∧ parent path = []) ∨
    ∃ last before, above path = last :: before ∧ last ≠ [] ∧ front path = (above path).reverse ∧
      parent path = ofBackwards (above path) := by
  have form : parent path =
    if (above path).isEmpty && path.head? == some '/' then ['/'] else ofBackwards (above path) := rfl
  rw [form, front]
  rcases dropIdle_head (backwards path).tail with none | ⟨last, before, rows, counts⟩
  · have none : above path = [] := none
    rw [none]
    by_cases rooted : path.head? == some '/'
    · rw [rooted]
      exact .inl ⟨rfl, rfl, rfl⟩
    · rw [Bool.not_eq_true] at rooted
      rw [rooted]
      exact .inr (.inl ⟨rfl, rfl, rfl⟩)
  · have rows : above path = last :: before := rows
    rw [rows]
    refine .inr (.inr ⟨last, before, rfl, ?_, rfl, rfl⟩)
    rintro rfl
    cases counts

theorem segments_push_parent (path : List Char) (plain : '/' ∉ name) :
    segments (push (parent path) name) = front path ++ [name] := by
  rcases parent_kinds path with ⟨_, front, root⟩ | ⟨_, front, none⟩ | ⟨last, before, rows, held, front, named⟩
  · rw [front, root]
    exact segments_beneath [] plain
  · rw [front, none]
    exact segments_plain plain
  · have slashless := @above_slashless path
    rw [rows] at slashless front named
    rw [front, named, push_ofBackwards held (slashless last List.mem_cons_self), segments_beneath _ plain,
      segments_ofBackwards (List.cons_ne_nil _ _) slashless]

theorem backwards_push_parent (path : List Char) (names : Names name) :
    backwards (push (parent path) name) = name :: (front path).reverse := by
  rw [backwards, segments_push_parent path names.slashless, List.reverse_append, List.reverse_singleton,
    List.singleton_append, dropIdle, if_pos (names.counts _)]

theorem fileName_push_parent (path : List Char) (names : Names name) :
    fileName? (push (parent path) name) = some name := by
  rw [fileName?, backwards_push_parent path names]
  exact if_neg (not_or.mpr ⟨names.moves.2, names.moves.1⟩)

theorem parent_push_parent (path : List Char) (names : Names name) :
    parent (push (parent path) name) = parent path := by
  rw [parent, backwards_push_parent path names, List.tail_cons]
  rcases parent_kinds path with ⟨_, front, root⟩ | ⟨_, front, none⟩ | ⟨last, before, rows, _, front, named⟩
  · rw [front, root]
    rfl
  · have unrooted : (name.head? == some '/') = false := by
      refine beq_eq_false_iff_ne.mpr fun first => names.slashless (List.mem_of_mem_head? first)
    have alone : push [] name = name := rfl
    rw [front, none, alone, unrooted]
    rfl
  · have again : dropIdle (above path) = above path := dropIdle_idem _
    rw [front, List.reverse_reverse, again, named, rows]
    rfl

end TransactionRelay.Path
