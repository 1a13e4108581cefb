import CardText.Proofs.Names.Marking
import CardText.Proofs.Text.Cut

/-!
# Whole words

The search for a name goes on behind every occurrence it stops at, also behind one that is only part
of a longer word. A whole occurrence that begins inside such a part is overlooked. Where there is
none, the search replaces the leftmost whole occurrences, one after the other.
-/

namespace CardText.Names

open Text

/-- `name` stands as a whole word between `front` and `back`, in a text with the character `before`
on its left. -/
structure WholeAt (name : Name) (before : Option Char) (cs front back : List Char) : Prop where
  split : cs = front ++ (name ++ back)
  alone : standsAlone name.head? (front.getLast?.or before) back.head? = true

/-- The leftmost place where `name` stands as a whole word: what precedes it and what follows. -/
def firstWhole? (name : Name) :
    (before : Option Char) → List Char → Option (List Char × List Char)
  | _, [] => none
  | before, c :: cs =>
    if name.isPrefixOf (c :: cs) &&
        standsAlone name.head? before ((c :: cs).drop name.length).head? then
      some ([], (c :: cs).drop name.length)
    else (firstWhole? name (some c) cs).map fun (front, back) => (c :: front, back)

section
variable {name cs front back : List Char} {before : Option Char}

theorem wholeAt_append_iff (x : List Char) :
    WholeAt name before (x ++ cs) (x ++ front) back ↔
      WholeAt name (x.getLast?.or before) cs front back := by
  have hleft : (x ++ front).getLast?.or before = front.getLast?.or (x.getLast?.or before) := by
    rw [List.getLast?_append, Option.or_assoc]
  constructor
  · rintro ⟨hsplit, halone⟩
    rw [List.append_assoc] at hsplit
    exact ⟨List.append_cancel_left hsplit, hleft ▸ halone⟩
  · rintro ⟨rfl, halone⟩
    exact ⟨(List.append_assoc ..).symm, hleft.symm ▸ halone⟩

theorem firstWhole?_eq_some (h : firstWhole? name before cs = some (front, back)) :
    WholeAt name before cs front back := by
  induction cs generalizing before front with
  | nil => cases h
  | cons c cs ih =>
    rw [firstWhole?] at h
    split at h
    · rename_i hhere
      obtain ⟨hstart, halone⟩ := Bool.and_eq_true_iff.1 hhere
      cases h
      exact ⟨(List.prefix_iff_eq_append.1 (List.isPrefixOf_iff_prefix.1 hstart)).symm, halone⟩
    · obtain ⟨r, hr, heq⟩ := Option.map_eq_some_iff.1 h
      cases heq
      exact (wholeAt_append_iff [c]).2 (ih hr)

theorem length_lt_of_firstWhole? (hname : name ≠ [])
    (h : firstWhole? name before cs = some (front, back)) : back.length < cs.length := by
  have hpos := List.length_pos_of_ne_nil hname
  rw [(firstWhole?_eq_some h).split, List.length_append, List.length_append]
  omega

theorem firstWhole?_of_prefix (hname : name ≠ [])
    (halone : standsAlone name.head? before back.head? = true) :
    firstWhole? name before (name ++ back) = some ([], back) := by
  obtain ⟨c, tail, rfl⟩ := List.exists_cons_of_ne_nil hname
  have hprefix : (c :: tail).isPrefixOf (c :: (tail ++ back)) = true :=
    List.isPrefixOf_iff_prefix.2 ⟨back, rfl⟩
  have hdrop : (c :: (tail ++ back)).drop (c :: tail).length = back := by
    rw [← List.cons_append, List.drop_left]
  rw [List.cons_append, firstWhole?, hprefix, hdrop, halone]
  rfl

theorem firstWhole?_append (x : List Char)
    (hnone : ∀ a b, WholeAt name before (x ++ cs) a b → x.length ≤ a.length) :
    firstWhole? name before (x ++ cs) =
      (firstWhole? name (x.getLast?.or before) cs).map fun r => (x ++ r.1, r.2) := by
  induction x generalizing before with
  | nil => simp
  | cons c x ih =>
    have hnot : ¬(name.isPrefixOf (c :: (x ++ cs)) &&
        standsAlone name.head? before ((c :: (x ++ cs)).drop name.length).head?) = true := by
      intro hhere
      have hfirst : firstWhole? name before (c :: x ++ cs) = some ([], _) := if_pos hhere
      exact absurd (hnone _ _ (firstWhole?_eq_some hfirst)) (by simp)
    have hbehind : ∀ a b, WholeAt name (some c) (x ++ cs) a b → x.length ≤ a.length := by
      intro a b hab
      simpa using hnone (c :: a) b ((wholeAt_append_iff [c]).2 hab)
    have hleft : (c :: x).getLast?.or before = x.getLast?.or (some c) := by
      cases hx : x.getLast? <;> simp [List.getLast?_cons, hx]
    rw [List.cons_append, firstWhole?, if_neg hnot, ih hbehind, hleft, Option.map_map]
    rfl

theorem firstWhole?_leftmost {a b : List Char} (hname : name ≠ [])
    (h : WholeAt name before cs a b) :
    ∃ front back, firstWhole? name before cs = some (front, back) ∧ front.length ≤ a.length := by
  induction cs generalizing before a with
  | nil =>
    obtain ⟨-, hnil⟩ := List.append_eq_nil_iff.1 h.split.symm
    exact absurd (List.append_eq_nil_iff.1 hnil).1 hname
  | cons c cs ih =>
    rw [firstWhole?]
    split
    · exact ⟨[], _, rfl, Nat.zero_le _⟩
    · rename_i hnot
      cases a with
      | nil =>
        have hhere : firstWhole? name before (name ++ b) = some ([], b) :=
          firstWhole?_of_prefix hname h.alone
        rw [← List.nil_append (name ++ b), ← h.split, firstWhole?, if_neg hnot] at hhere
        obtain ⟨r, -, heq⟩ := Option.map_eq_some_iff.1 hhere
        cases heq
      | cons d a =>
        obtain ⟨rfl, -⟩ := List.cons.inj h.split
        obtain ⟨front, back, hfirst, hle⟩ := ih ((wholeAt_append_iff [c]).1 h)
        have hrest : firstWhole? name (some c) cs = some (front, back) := hfirst
        exact ⟨c :: front, back, by simp [hrest], by simpa using hle⟩

end

/-- The text with `marker` for the whole occurrences of a name: again and again the leftmost one
gives way, and what follows it is looked at next. -/
def replaceWhole {name : Name} (hname : name ≠ []) (marker : List Char) (before : Option Char)
    (cs : List Char) : List Char :=
  match _h : firstWhole? name before cs with
  | none => cs
  | some (front, back) => front ++ (marker ++ replaceWhole hname marker name.getLast? back)
termination_by cs.length
decreasing_by exact length_lt_of_firstWhole? hname _h

/-- The occurrences at which the search for `name` stops: the first one, and the first one behind
each. -/
inductive StopsAt (name : Name) : (cs front back : List Char) → Prop where
  | first {cs front back : List Char} (here : cut? name cs = some (front, back)) :
      StopsAt name cs front back
  | behind {cs front back a b : List Char} (here : cut? name cs = some (front, back))
      (later : StopsAt name back a b) : StopsAt name cs (front ++ (name ++ a)) b

/-- A whole occurrence begins inside one that is not whole and at which the search stops. -/
def Overlooked (name : Name) (before : Option Char) (cs : List Char) : Prop :=
  ∃ front back, StopsAt name cs front back ∧ ¬WholeAt name before cs front back ∧
    ∃ a b, WholeAt name before cs a b ∧ front.length < a.length ∧
      a.length < front.length + name.length

section
variable {name marker cs front back : List Char} {before : Option Char}

theorem replaceAfter_of_cut?_eq_none (before : Option Char) (h : cut? name cs = none) :
    replaceAfter name marker before 0 cs = cs := by
  induction cs generalizing before with
  | nil => rfl
  | cons c cs ih =>
    rw [replaceAfter]
    by_cases hname : name <+: c :: cs
    · rw [cut?_cons_here hname] at h
      cases h
    · rw [cut?_cons_later hname, Option.map_eq_none_iff] at h
      rw [if_neg (mt List.isPrefixOf_iff_prefix.1 hname), ih _ h]

theorem replaceAfter_of_cut? (hname : name ≠ []) (before : Option Char)
    (h : cut? name cs = some (front, back)) :
    replaceAfter name marker before 0 cs = front ++
      ((if standsAlone name.head? (front.getLast?.or before) back.head? then marker else name) ++
        replaceAfter name marker name.getLast? 0 back) := by
  induction cs generalizing before front with
  | nil => cases h
  | cons c cs ih =>
    rw [replaceAfter]
    by_cases hhere : name <+: c :: cs
    · obtain ⟨d, tail, rfl⟩ := List.exists_cons_of_ne_nil hname
      obtain ⟨rest, hrest⟩ := hhere
      obtain ⟨rfl, rfl⟩ : d = c ∧ tail ++ rest = cs := by simpa using hrest
      have hfront : d :: tail <+: d :: (tail ++ rest) := ⟨rest, rfl⟩
      have hdrop : (d :: (tail ++ rest)).drop (d :: tail).length = rest := by
        rw [← List.cons_append, List.drop_left]
      rw [cut?_cons_here hfront, hdrop] at h
      cases h
      have hlast : (d :: tail).getLast? = tail.getLast?.or (some d) := by
        cases htail : tail.getLast? <;> simp [List.getLast?_cons, htail]
      rw [if_pos (List.isPrefixOf_iff_prefix.2 hfront), hdrop, List.length_cons,
        Nat.add_sub_cancel, replaceAfter_skip, hlast]
      rfl
    · rw [cut?_cons_later hhere] at h
      obtain ⟨r, hr, heq⟩ := Option.map_eq_some_iff.1 h
      cases heq
      have hleft : (c :: r.1).getLast?.or before = r.1.getLast?.or (some c) := by
        cases hlast : r.1.getLast? <;> simp [List.getLast?_cons, hlast]
      rw [if_neg (mt List.isPrefixOf_iff_prefix.1 hhere), ih (some c) hr, hleft, List.cons_append]

theorem replaceWhole_of_none (hname : name ≠ []) (h : firstWhole? name before cs = none) :
    replaceWhole hname marker before cs = cs := by
  rw [replaceWhole]
  split
  · rfl
  · rename_i hsome
    rw [h] at hsome
    cases hsome

theorem replaceWhole_of_some (hname : name ≠ [])
    (h : firstWhole? name before cs = some (front, back)) :
    replaceWhole hname marker before cs =
      front ++ (marker ++ replaceWhole hname marker name.getLast? back) := by
  rw [replaceWhole]
  split
  · rename_i hnone
    rw [h] at hnone
    cases hnone
  · rename_i hsome
    rw [h] at hsome
    cases hsome
    rfl

theorem replaceWhole_append (hname : name ≠ []) (x : List Char)
    (hnone : ∀ a b, WholeAt name before (x ++ cs) a b → x.length ≤ a.length) :
    replaceWhole hname marker before (x ++ cs) =
      x ++ replaceWhole hname marker (x.getLast?.or before) cs := by
  have hfirst := firstWhole?_append x hnone
  cases hcs : firstWhole? name (x.getLast?.or before) cs with
  | none =>
    rw [hcs] at hfirst
    rw [replaceWhole_of_none hname hfirst, replaceWhole_of_none hname hcs]
  | some r =>
    rw [hcs] at hfirst
    rw [replaceWhole_of_some hname hfirst, replaceWhole_of_some hname hcs, List.append_assoc]

theorem WholeAt.firstWhole?_eq (h : WholeAt name before cs front back) (hname : name ≠ [])
    (hcut : cut? name cs = some (front, back)) :
    firstWhole? name before cs = some (front, back) := by
  have hleftmost : ∀ a b, WholeAt name before cs a b → front.length ≤ a.length :=
    fun a b hab => length_le_of_cut? hcut hab.split
  rw [cut?_eq_some hcut] at hleftmost ⊢
  rw [firstWhole?_append front hleftmost, firstWhole?_of_prefix hname h.alone]
  simp

theorem WholeAt.length_lt_of_not {a b : List Char} (h : WholeAt name before cs a b)
    (hcut : cut? name cs = some (front, back)) (hnot : ¬WholeAt name before cs front back) :
    front.length < a.length := by
  refine lt_of_le_of_ne (length_le_of_cut? hcut h.split) fun hlength => hnot ?_
  obtain ⟨rfl, hrest⟩ := List.append_inj ((cut?_eq_some hcut).symm.trans h.split) hlength
  obtain rfl := List.append_cancel_left hrest
  exact h

theorem not_stopsAt_of_cut?_eq_none (h : cut? name cs = none) : ¬StopsAt name cs front back := by
  intro hstop
  cases hstop with
  | first here =>
    rw [h] at here
    cases here
  | behind here =>
    rw [h] at here
    cases here

theorem wholeAt_behind_iff (hname : name ≠ []) (h : cut? name cs = some (front, back))
    (a b : List Char) : WholeAt name before cs (front ++ (name ++ a)) b ↔
      WholeAt name name.getLast? back a b := by
  have hcs : cs = (front ++ name) ++ back := by rw [cut?_eq_some h, List.append_assoc]
  rw [hcs, ← List.append_assoc, wholeAt_append_iff, getLast?_append_or hname]

theorem overlooked_iff_of_cut? (hname : name ≠ []) (h : cut? name cs = some (front, back))
    (hhere : WholeAt name before cs front back ∨
      ∀ a b, WholeAt name before cs a b → front.length < a.length →
        front.length + name.length ≤ a.length) :
    Overlooked name before cs ↔ Overlooked name name.getLast? back := by
  have hcs : cs = (front ++ name) ++ back := by rw [cut?_eq_some h, List.append_assoc]
  have hshift := @wholeAt_behind_iff name cs front back before hname h
  constructor
  · rintro ⟨f, k, hstop, hnot, a, b, hwhole, hlt, hin⟩
    cases hstop with
    | first here =>
      obtain ⟨rfl, rfl⟩ : front = f ∧ back = k := by simpa [here] using h.symm
      rcases hhere with hwholeHere | hbeyond
      · exact absurd hwholeHere hnot
      · have := hbeyond a b hwhole hlt
        omega
    | @behind _ front' back' f _ here later =>
      obtain ⟨rfl, rfl⟩ : front = front' ∧ back = back' := by simpa [here] using h.symm
      -- The whole occurrence begins behind the first stop too.
      have hlong : (front ++ name).length ≤ a.length := by
        simp only [List.length_append] at hlt ⊢
        omega
      have hstart : front ++ name <+: cs := ⟨back, hcs.symm⟩
      have hlater : a <+: cs := ⟨name ++ b, hwhole.split.symm⟩
      obtain ⟨a, rfl⟩ := List.prefix_of_prefix_length_le hstart hlater hlong
      rw [List.append_assoc] at hwhole
      refine ⟨f, k, later, fun hf => hnot ((hshift f k).2 hf), a, b, (hshift a b).1 hwhole, ?_, ?_⟩
      all_goals
        simp only [List.length_append] at hlt hin
        omega
  · rintro ⟨f, k, hstop, hnot, a, b, hwhole, hlt, hin⟩
    refine ⟨_, k, .behind h hstop, fun hf => hnot ((hshift f k).1 hf), _, b, (hshift a b).2 hwhole,
      ?_, ?_⟩
    all_goals
      simp only [List.length_append]
      omega

theorem exists_marker_of_overlooked (hname : name ≠ []) (h : cut? name cs = some (front, back))
    (hnot : ¬WholeAt name before cs front back) {a b : List Char}
    (hwhole : WholeAt name before cs a b) (hin : a.length < front.length + name.length) :
    ∃ marker, replaceAfter name marker before 0 cs ≠ replaceWhole hname marker before cs := by
  obtain ⟨c, tail, rfl⟩ := List.exists_cons_of_ne_nil hname
  obtain ⟨x, y, hfirst, hle⟩ := firstWhole?_leftmost hname hwhole
  obtain ⟨d, hd⟩ : ∃ d : Char, d ≠ c := by
    by_cases hc : c = 'a'
    · exact ⟨'b', by simp [hc]⟩
    · exact ⟨'a', Ne.symm hc⟩
  refine ⟨[d], fun heq => hd ?_⟩
  -- Both texts begin as the line does; then the marker stands where the name goes on.
  have hsplit := (firstWhole?_eq_some hfirst).split
  have hfalse : standsAlone (c :: tail).head? (front.getLast?.or before) back.head? = false := by
    simpa using fun halone => hnot ⟨cut?_eq_some h, halone⟩
  rw [replaceAfter_of_cut? hname before h, hfalse, replaceWhole_of_some hname hfirst] at heq
  have hkept : (front ++ (c :: tail))[x.length]? = some c := by
    have hlt : x.length < (front ++ (c :: tail)).length := by
      rw [List.length_append]
      omega
    have hline : cs[x.length]? = some c := by simp [hsplit]
    rw [cut?_eq_some h, ← List.append_assoc, List.getElem?_append_left hlt] at hline
    exact hline
  have hhere := congrArg (·[x.length]?) heq
  simp only [Bool.false_eq_true, if_false, ← List.append_assoc] at hhere
  rw [List.getElem?_append_left (by rw [List.length_append]; omega), hkept] at hhere
  simpa using hhere.symm

theorem replaceAfter_eq_iff_of_cut? (hname : name ≠ []) (h : cut? name cs = some (front, back))
    (hhere : WholeAt name before cs front back ∨
      ∀ a b, WholeAt name before cs a b → front.length < a.length →
        front.length + name.length ≤ a.length) (marker : List Char) :
    replaceAfter name marker before 0 cs = replaceWhole hname marker before cs ↔
      replaceAfter name marker name.getLast? 0 back =
        replaceWhole hname marker name.getLast? back := by
  rw [replaceAfter_of_cut? hname before h]
  by_cases hwhole : WholeAt name before cs front back
  · -- The first stop is the first whole occurrence.
    rw [if_pos hwhole.alone, replaceWhole_of_some hname (hwhole.firstWhole?_eq hname h),
      List.append_cancel_left_eq, List.append_cancel_left_eq]
  · have hcs := cut?_eq_some h
    have hsplit : cs = (front ++ name) ++ back := by rw [hcs, List.append_assoc]
    have hfalse : standsAlone name.head? (front.getLast?.or before) back.head? = false := by
      simpa using fun halone => hwhole ⟨hcs, halone⟩
    have hkept : replaceWhole hname marker before (front ++ name ++ back) =
        (front ++ name) ++ replaceWhole hname marker ((front ++ name).getLast?.or before) back := by
      refine replaceWhole_append hname _ fun a b hab => ?_
      rw [← hsplit] at hab
      rw [List.length_append]
      exact hhere.resolve_left hwhole a b hab (hab.length_lt_of_not h hwhole)
    rw [hfalse, hsplit, hkept, getLast?_append_or hname, List.append_assoc]
    simp

theorem replaceAfter_eq_replaceWhole_iff (hname : name ≠ []) (before : Option Char)
    (cs : List Char) :
    (∀ marker, replaceAfter name marker before 0 cs = replaceWhole hname marker before cs) ↔
      ¬Overlooked name before cs := by
  induction cs using cut?_induction hname generalizing before with
  | last cs hcut =>
    have hfirst : firstWhole? name before cs = none := by
      cases hfirst : firstWhole? name before cs with
      | none => rfl
      | some r =>
        have hpart : name <:+: cs := ⟨r.1, r.2, by simp [(firstWhole?_eq_some hfirst).split]⟩
        exact absurd hpart ((cut?_eq_none_iff hname).1 hcut)
    refine iff_of_true (fun marker => ?_) ?_
    · rw [replaceAfter_of_cut?_eq_none before hcut, replaceWhole_of_none hname hfirst]
    · rintro ⟨f, k, hstop, -⟩
      exact not_stopsAt_of_cut?_eq_none hcut hstop
  | cut cs front back hcut ih =>
    by_cases hhere : WholeAt name before cs front back ∨
        ∀ a b, WholeAt name before cs a b → front.length < a.length →
          front.length + name.length ≤ a.length
    · rw [overlooked_iff_of_cut? hname hcut hhere, ← ih]
      exact forall_congr' (replaceAfter_eq_iff_of_cut? hname hcut hhere)
    · simp only [not_or, not_forall, not_le] at hhere
      obtain ⟨hnot, a, b, hwhole, hlt, hin⟩ := hhere
      refine iff_of_false (fun hall => ?_) (not_not.2 ?_)
      · obtain ⟨marker, hne⟩ := exists_marker_of_overlooked hname hcut hnot hwhole hin
        exact hne (hall marker)
      · exact ⟨front, back, .first hcut, hnot, a, b, hwhole, hlt, hin⟩

end

/-- Marking a name replaces its leftmost whole occurrences one after the other, with every marker,
exactly where none of them is overlooked: none begins inside an occurrence that is not whole and at
which the search stops. -/
theorem replaceNames_eq_replaceWhole_iff {name : Name} (hname : name ≠ []) (cs : List Char) :
    (∀ marker, replaceNames [name] marker cs = replaceWhole hname marker none cs) ↔
      ¬Overlooked name none cs := by
  have hreplace : ∀ marker, replaceNames [name] marker cs = replaceAfter name marker none 0 cs := by
    intro marker
    simp [replaceNames, replaceName, hname]
  simp only [hreplace]
  exact replaceAfter_eq_replaceWhole_iff hname none cs

/-- In `SuperPing Ping Ping attacks.` the search for `Ping Ping` stops inside the first word and
goes on behind the second one, in the middle of the name. -/
theorem ping_ping_is_overlooked :
    replaceNames ["Ping Ping".toList] Placeholder.self "SuperPing Ping Ping attacks.".toList =
        "SuperPing Ping Ping attacks.".toList ∧
      (∀ hname : "Ping Ping".toList ≠ [],
        replaceWhole hname Placeholder.self none "SuperPing Ping Ping attacks.".toList =
          "SuperPing SELF attacks.".toList) ∧
      "Ping Ping".toList ≠ [] ∧
      Overlooked "Ping Ping".toList none "SuperPing Ping Ping attacks.".toList := by
  have hne : "Ping Ping".toList ≠ [] := by decide
  have hkept : replaceNames ["Ping Ping".toList] Placeholder.self
      "SuperPing Ping Ping attacks.".toList = "SuperPing Ping Ping attacks.".toList := by
    decide +kernel
  have hwhole : ∀ hname : "Ping Ping".toList ≠ [],
      replaceWhole hname Placeholder.self none "SuperPing Ping Ping attacks.".toList =
        "SuperPing SELF attacks.".toList := by
    intro hname
    have hfirst : firstWhole? "Ping Ping".toList none "SuperPing Ping Ping attacks.".toList =
        some ("SuperPing ".toList, " attacks.".toList) := by decide +kernel
    have hlast : firstWhole? "Ping Ping".toList "Ping Ping".toList.getLast? " attacks.".toList =
        none := by decide +kernel
    rw [replaceWhole_of_some hname hfirst, replaceWhole_of_none hname hlast]
    rfl
  refine ⟨hkept, hwhole, hne, not_not.1 fun hnot => ?_⟩
  have hsame := (replaceNames_eq_replaceWhole_iff hne _).2 hnot Placeholder.self
  rw [hkept, hwhole hne] at hsame
  exact absurd hsame (by decide)

end CardText.Names
