import JsonAdapters.Proofs.Json.Skipping

/-!
# Whole documents

A reader at the start of a source passes one value and finishes exactly when the source is a
document of the grammar, with nothing behind it but blanks.

## Main statements

* `Json.Reader.passes_finish_iff`: reading a whole source against the grammar.
-/

namespace JsonAdapters.Json

open Outcome

namespace Reader

variable {r r' : Reader}

theorem ofSource_atValue (s : Source) : AtValue (ofSource s) := by
  have hd : (ofSource s).ValueDue := trivial
  refine ⟨hd, nofun, fun r' hl => ?_⟩
  obtain ⟨lead, rest, p, -, -, rfl, hs⟩ := look_sound rfl hd.ne_nothing hd.of_memberValue hl
  obtain ⟨ha, -⟩ | ⟨hn, -⟩ := hs
  · cases ha
  · cases hn

/-- A complete document may end in blanks. -/
theorem finish_eq_ok_iff (h : r.due = .nothing) :
    (∃ r', finish r = .ok () r') ↔ IsBlank r.rest ∧ r.ending = .finished := by
  simp only [finish, get_bind_run, h, ne_eq, not_true_eq_false, if_false]
  constructor
  · rintro ⟨r', hf⟩
    obtain ⟨_, r₁, hs, hf⟩ := bind_eq_ok.1 hf
    obtain ⟨blanks, rest, p, hr, hb, -, rfl⟩ := skipBlanks_sound hs
    rw [bind_of_ok (next_apply _)] at hf
    -- after the blanks, nothing may be left
    cases rest with
    | cons c rest => cases hf
    | nil =>
      cases he : r.ending <;> simp only [movedTo_ending, movedTo_rest, he, Ending.next] at hf
      case finished =>
        rw [hr, List.append_nil]
        exact ⟨hb, rfl⟩
      all_goals cases hf
  · rintro ⟨hb, he⟩
    obtain ⟨p, hp⟩ := skipBlanks_complete (List.append_nil r.rest).symm hb .nil
    refine ⟨r.movedTo [] p, ?_⟩
    rw [bind_of_ok hp, bind_of_ok (next_apply _)]
    simp only [movedTo_ending, movedTo_rest, he, Ending.next]
    rfl

theorem finish_innocent {e : ReadFailure} (h : r.due = .nothing) (he : finish r = .error e r') :
    Innocent e := by
  simp only [finish, get_bind_run, h, ne_eq, not_true_eq_false, if_false] at he
  refine FailsOnly.bind skipBlanks_innocent (fun _ => .bind next_innocent fun c => ?_) _ _ _ he
  cases c with
  | finished => exact .pure _
  | failing reason => exact fail_innocent (unreadable_blameless reason)
  | char | stray => exact fail_innocent (malformed_blameless _)

/-- Behind the value of a document nothing is due. -/
theorem Passes.due_of_top {j : Tree} (h : Passes j r r') (hr : AtValue r) (hf : r.frames = []) :
    r'.due = .nothing := by
  obtain ⟨⟨lead, text, rest, p, -, -, -, -, rfl⟩, -⟩ := h.sound hr
  simp [valueDone, hf]

/-- What follows the value of a document ends a number. -/
theorem stops_of_isBlank {s : Source} {rest : List Char} (hb : IsBlank rest)
    (hs : s.ending = .finished) : Stops s.ending rest := by
  cases rest with
  | nil =>
    rw [hs]
    trivial
  | cons c rest => exact delimits_of_isBlank (hb c (List.mem_cons_self ..))

/-- A source is read to its end as a value exactly when it is a document of that value. -/
theorem passes_finish_iff {s : Source} {j : Tree} :
    (∃ r r', Passes j (ofSource s) r ∧ finish r = .ok () r') ↔
      IsDocument j s.chars ∧ s.ending = .finished ∧ j.depth ≤ maxDepth := by
  have hs := ofSource_atValue s
  constructor
  · rintro ⟨r, r', hj, hf⟩
    have hdue := hj.due_of_top hs rfl
    obtain ⟨⟨lead, text, rest, p, hr, hlead, ht, -, rfl⟩, hd⟩ := hj.sound hs
    obtain ⟨hb, he⟩ := (finish_eq_ok_iff hdue).1 ⟨r', hf⟩
    rw [valueDone_rest] at hb
    rw [valueDone_ending] at he
    exact ⟨⟨lead, text, rest, hr, hlead, ht, hb⟩, he, hd⟩
  · rintro ⟨⟨lead, text, rest, hr, hlead, ht, hb⟩, he, hd⟩
    obtain ⟨p, hp⟩ := passes_complete _ hs hr hlead ht (.of_stops (stops_of_isBlank hb he) j) hd
    obtain ⟨r', hf⟩ := (finish_eq_ok_iff (hp.due_of_top hs rfl)).2 ⟨by rwa [valueDone_rest], by
      rwa [valueDone_ending]⟩
    exact ⟨_, r', hp, hf⟩

end Reader

end JsonAdapters.Json
