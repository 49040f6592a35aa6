import WakeRouter.Http.Header

/-!
# Lines by their names

Headers are read by the lines of one name, and written by putting one line in the place of all
lines of its name.  What a list of such writings leaves behind is known name by name.
-/

namespace WakeRouter.Http.Headers

variable {headers : Headers} {line : Header} {name : String}

theorem all_append (headers more : Headers) (name : String) :
    (headers ++ more).all name = headers.all name ++ more.all name :=
  List.filter_append ..

theorem mem_all : line ∈ headers.all name ↔ line ∈ headers ∧ line.name = name := by
  simp [all]

theorem mem_all_self : line ∈ headers.all line.name ↔ line ∈ headers := by
  simp [mem_all]

theorem all_eq_nil_iff : headers.all name = [] ↔ name ∉ headers.map Header.name := by
  simp [all]

theorem find?_eq_head? (headers : Headers) (name : String) :
    headers.find? name = (headers.all name).head? :=
  List.head?_filter.symm

theorem name_of_find? (hline : headers.find? name = some line) : line.name = name := by
  simpa using List.find?_some hline

theorem find?_congr {headers' : Headers} (hsame : headers'.all name = headers.all name) :
    headers'.find? name = headers.find? name := by
  rw [find?_eq_head?, find?_eq_head?, hsame]

theorem all_set (headers : Headers) (line : Header) (name : String) :
    (headers.set line).all name = if name = line.name then [line] else headers.all name := by
  unfold set erase all
  rw [List.filter_append, List.filter_filter]
  split
  next hname =>
    subst hname
    simp
  next hname =>
    have hkept : (line.name == name) = false := by simpa using Ne.symm hname
    simp only [hkept, List.filter_cons, Bool.false_eq_true, if_false, List.filter_nil,
      List.append_nil]
    apply List.filter_congr
    intro other _
    by_cases hother : other.name = name <;> simp [hother, hname]

/-- Lines of different names can be set in one go. -/
theorem all_foldl_set {lines : Headers} (hnodup : (lines.map Header.name).Nodup) :
    (lines.foldl set headers).all name =
      if name ∈ lines.map Header.name then lines.all name else headers.all name := by
  induction lines generalizing headers with
  | nil => rfl
  | cons line lines ih =>
      rw [List.map_cons, List.nodup_cons] at hnodup
      rw [List.foldl_cons, ih hnodup.2, all_set]
      by_cases hline : name = line.name
      · subst hline
        have hrest : all lines line.name = [] := all_eq_nil_iff.mpr hnodup.1
        rw [if_neg hnodup.1, if_pos rfl, if_pos (by simp)]
        simpa [all] using hrest
      · simp [hline, Ne.symm hline, all]

end WakeRouter.Http.Headers
