import LineShell.Proofs.Status

/-!
# How the process of a pipe ends

The process of a pipe waits for its left side, then for its right side, and ends with the status of
the right side. It cannot be told of a death by a signal without a name : then it writes a message
and exits with code 1. If that was the left side, it has not waited for the right side at all.

`System.pipe_over` : which of these comes about follows from how the sides have ended, for every pipe
of the tree and whatever the programs do.
-/

namespace LineShell

open LineShell.System LineShell.Layout

variable {σ : Type} {c : Command} {D₀ D : Descriptors} {L : Layout} {J : Journal} {a : Address}
  {s t : System σ} {m : Machine σ} {q l r : Pid} {e : Ending} {n : Nat} {es : List Deed}

/-- A process has ended that could not be told how `child` had ended : it has written a message, or
what it could of it. -/
def Ending.Loses (e : Ending) (child : Pid) (err : Errno) : Prop :=
  ∃ said, Utters (complaint (ExecError.wait child err).message) 1 said e

/-- What the process of a pipe has done since it made its sides, and how it has ended. -/
inductive Outlasts (l r : Pid) (es : List Deed) (e : Ending) : Prop
  | both {el er : Ending} {status : Nat} (heard : el.IsTold) (told : er.status? = .ok status)
      (left : .reaps l el ∈ es) (right : .reaps r er ∈ es) (eq : e = .ofCode status)
  | losesRight {el er : Ending} {err : Errno} (heard : el.IsTold) (untold : er.status? = .error err)
      (left : .reaps l el ∈ es) (right : .reaps r er ∈ es) (loses : e.Loses r err)
  | losesLeft {el : Ending} {err : Errno} (untold : el.status? = .error err)
      (left : .reaps l el ∈ es) (only : ∀ q e', .reaps q e' ∈ es → q = l) (loses : e.Loses l err)

theorem Utters.reaps_not_mem {message : Bytes} {code : Nat} {said : List Deed} {e' : Ending}
    (h : Utters message code said e) : .reaps q e' ∉ said := by
  intro hq
  rcases h.eq_of_mem hq with ⟨data, hd⟩ | ⟨err, hd⟩ | hd <;> cases hd

/-- A process that has made another, and has ended, is that of a pipe, and has waited for the left
side at least. -/
theorem Finale.outlasts (h : Finale c L a m es e) (hforks : .forks q ∈ es) :
    ∃ l r, Sides c L a l r ∧ Outlasts l r es e := by
  cases h with
  | empty core => exact absurd hforks forks_not_mem_performed
  | program core free how => simp [forks_not_mem_performed] at hforks
  | pipe sides told heard =>
    exact ⟨_, _, sides, .both heard told (by simp) (by simp) rfl⟩
  | fails failure utters =>
    obtain ⟨hsilent, -, -⟩ := utters.silent
    cases failure with
    | unopened redirections | unplaced redirections | zero core holds | unloaded core free
    | pipeless core => simp [forks_not_mem_performed, hsilent] at hforks
    | losesLeft sides untold =>
      refine ⟨_, _, sides, .losesLeft untold (by simp) (fun q' e' hreaps => ?_)
        ⟨_, flatten_complaintPieces _ ▸ utters⟩⟩
      simp [reaps_not_mem_performed, utters.reaps_not_mem] at hreaps
      exact hreaps.1
    | losesRight sides untold heard =>
      exact ⟨_, _, sides, .losesRight heard untold (by simp) (by simp)
        ⟨_, flatten_complaintPieces _ ▸ utters⟩⟩

namespace Chronicle

/-- The process of a pipe has made those of the sides. -/
theorem forks_of_place (h : Chronicle m c D₀ n L J s) {d : Side} (hq : L.place q = some a)
    (hr : L.place r = some (d :: a)) : .forks r ∈ J.of q := by
  obtain ⟨p, ⟨-, ⟨⟩⟩ | ⟨d', a', hp, hcons⟩, hforks⟩ := h.forked r _ hr
  obtain ⟨rfl, rfl⟩ := List.cons.inj hcons
  exact h.arranged.inj q p _ hq hp ▸ hforks

/-- The process of a pipe has ended. -/
theorem outlasts (h : Chronicle m c D₀ n L J s) (hq : L.place q = some a)
    (sides : Sides c L a l r)
    (hw : s.work q = some (.ended e, D) ∨ s.work q = some (.reaped e, D)) :
    Outlasts l r (J.of q) e := by
  have hfinale : Finale c L a m (J.of q) e := by
    rcases hw with hw | hw
    · cases h.story q a _ D hq hw with
      | ended finale => exact finale
    · exact h.finale_of_reaped hq hw
  obtain ⟨l', r', sides', houtlasts⟩ := hfinale.outlasts (h.forks_of_place hq sides.left)
  obtain rfl := h.arranged.inj l l' _ sides.left sides'.left
  obtain rfl := h.arranged.inj r r' _ sides.right sides'.right
  exact houtlasts

/-- The process of a pipe has ended : it has waited for the left side, and for the right side too
unless it could not be told of the left one. -/
theorem awaited (h : Chronicle m c D₀ n L J s) (hq : L.place q = some a) (sides : Sides c L a l r)
    (hw : s.work q = some (.ended e, D) ∨ s.work q = some (.reaped e, D)) :
    ∃ el Dl, s.work l = some (.reaped el, Dl) ∧
      (∀ told, el.status? = .ok told → ∃ er Dr, s.work r = some (.reaped er, Dr) ∧
        (∀ status, er.status? = .ok status → e = .exited status) ∧
        ∀ err, er.status? = .error err → e.Loses r err) ∧
      ∀ err, el.status? = .error err →
        e.Loses l err ∧ ∀ er Dr, s.work r ≠ some (.reaped er, Dr) := by
  have hover := h.outlasts hq sides hw
  generalize hes : J.of q = es at hover
  cases hover with
  | @both el er status heard told left right eq =>
    obtain ⟨Dl, hl⟩ := h.reaps q l el (hes ▸ left)
    obtain ⟨Dr, hr⟩ := h.reaps q r er (hes ▸ right)
    refine ⟨el, Dl, hl, fun _ _ => ⟨er, Dr, hr, fun status' h' => ?_, fun err h' => ?_⟩,
      fun err h' => absurd heard (Ending.not_isTold h')⟩
    · obtain rfl := Except.ok.inj (told.symm.trans h')
      have hlt := (h.finale_of_reaped sides.right hr).lt_of_status? told
      rw [eq, Ending.ofCode, Nat.mod_eq_of_lt hlt]
    · rw [told] at h'
      cases h'
  | @losesRight el er err heard untold left right loses =>
    obtain ⟨Dl, hl⟩ := h.reaps q l el (hes ▸ left)
    obtain ⟨Dr, hr⟩ := h.reaps q r er (hes ▸ right)
    refine ⟨el, Dl, hl, fun _ _ => ⟨er, Dr, hr, fun status' h' => ?_, fun err' h' => ?_⟩,
      fun err h' => absurd heard (Ending.not_isTold h')⟩
    · rw [untold] at h'
      cases h'
    · obtain rfl := Except.error.inj (untold.symm.trans h')
      exact loses
  | @losesLeft el err untold left only loses =>
    obtain ⟨Dl, hl⟩ := h.reaps q l el (hes ▸ left)
    refine ⟨el, Dl, hl, fun told h' => ?_, fun err' h' => ⟨?_, fun er Dr hr => ?_⟩⟩
    · rw [untold] at h'
      cases h'
    · obtain rfl := Except.error.inj (untold.symm.trans h')
      exact loses
    · -- had anybody waited for `r`, it would be the process of the pipe
      obtain ⟨er', hreaps⟩ := h.reaps_of_reaped hq sides.right ⟨er, Dr, hr⟩
      have hsame := only r er' (hes ▸ hreaps)
      have hright := sides.right
      rw [hsame, sides.left] at hright
      cases hright

/-- The result of a line that has been executed is that of its process. -/
theorem result (h : Chronicle m c D₀ n L J s) {x : Except ExecError Nat} (hx : s.result? = some x) :
    c.isNoop = true ∧ x = .ok 0 ∨
      ∃ line e D, L.place line = some [] ∧ s.work line = some (.reaped e, D) ∧
        (∀ code, e = .exited code → x = .ok code) ∧
        ∀ n, e = .killed n →
          x = if 1 ≤ n ∧ n ≤ 31 then .ok (128 + n) else .error (.wait line .invalid) := by
  rcases h.skipped_or_executed hx with ⟨noop, -, rfl⟩ | ⟨line, e, -, placed, hroot, rfl⟩
  · exact .inl ⟨noop, rfl⟩
  · obtain ⟨D, hw⟩ := h.reaps shell line e hroot
    refine .inr ⟨line, e, D, placed, hw, ?_, ?_⟩
    · rintro code rfl
      rfl
    · rintro signal rfl
      rw [Ending.status?]
      split <;> rfl

end Chronicle

namespace System

/-- In every state to which steps lead from that in which a line begins, whatever the programs do :
when the process of a pipe has ended, with the processes `l` and `r` on its sides, it has waited for
`l`. If it could be told how `l` had ended, it has waited for `r` as well, and has exited with the
status of `r`, if it could be told that ; if not, it has never waited for `r`. Where it could not be
told, it has written so. And if the shell has executed the line, the result is the exit code of the
process of the line, or 128 and its signal, if that is one of those from 1 to 31, and an error if it
is another. -/
theorem pipe_over (hs : s.Idle D₀) (hJ : Journaled m (s.setShellTask (.execute c)) t L J) :
    (∀ q a l r e D, L.place q = some a → Sides c L a l r →
      t.work q = some (.ended e, D) ∨ t.work q = some (.reaped e, D) →
      ∃ el Dl, t.work l = some (.reaped el, Dl) ∧
        (∀ told, el.status? = .ok told → ∃ er Dr, t.work r = some (.reaped er, Dr) ∧
          (∀ status, er.status? = .ok status → e = .exited status) ∧
          ∀ err, er.status? = .error err → e.Loses r err) ∧
        ∀ err, el.status? = .error err →
          e.Loses l err ∧ ∀ er Dr, t.work r ≠ some (.reaped er, Dr)) ∧
    ∀ x, t.result? = some x → c.isNoop = true ∧ x = .ok 0 ∨
      ∃ line e D, L.place line = some [] ∧ t.work line = some (.reaped e, D) ∧
        (∀ code, e = .exited code → x = .ok code) ∧
        ∀ n, e = .killed n →
          x = if 1 ≤ n ∧ n ≤ 31 then .ok (128 + n) else .error (.wait line .invalid) := by
  have h := chronicle_of_journaled hs hJ
  exact ⟨fun q a l r e D hq sides hw => h.awaited hq sides hw, fun x hx => h.result hx⟩

/-- Both programs of a pipe have ended, and so has the process of the pipe. -/
theorem pipe_over_couple : ∃ (t : System Unit) (L : Layout) (J : Journal),
    Journaled brief (bare.setShellTask (.execute couple)) t L J ∧ Sides couple L [] 2 3 ∧
      ∃ el D, t.work 2 = some (.reaped el, D) ∧ ∀ n, el.status? = .ok n →
        ∃ er D, t.work 3 = some (.reaped er, D) ∧
          ∀ status, er.status? = .ok status → Ending.exited 0 = .exited status := by
  obtain ⟨t, ht, hw, hl, hr, hq⟩ : ∃ t,
      steps brief coupleSteps (bare.setShellTask (.execute couple)) = some t ∧
      t.work 1 = some (.reaped (.exited 0), {}) ∧
      (journal brief coupleSteps (bare.setShellTask (.execute couple)) ({}, [])).1.place 2 =
        some [.left] ∧
      (journal brief coupleSteps (bare.setShellTask (.execute couple)) ({}, [])).1.place 3 =
        some [.right] ∧
      (journal brief coupleSteps (bare.setShellTask (.execute couple)) ({}, [])).1.place 1 =
        some [] := ⟨_, rfl, rfl, rfl, rfl, rfl⟩
  have hJ := journaled_of_steps (.start (m := brief)) ht
  have sides : Sides couple _ [] 2 3 := ⟨⟨_, _, rfl⟩, hl, hr⟩
  obtain ⟨el, D, hleft, hheard, -⟩ :=
    (pipe_over idle_bare hJ).1 1 [] 2 3 (.exited 0) {} hq sides (.inr hw)
  refine ⟨t, _, _, hJ, sides, el, D, hleft, fun n hn => ?_⟩
  obtain ⟨er, Dr, hright, hstatus, -⟩ := hheard n hn
  exact ⟨er, Dr, hright, hstatus⟩

/-- Signal 34 has no name. When the left side of a pipe dies of it, the line has been executed while
the process of the right side goes on, and a program alone that dies of it has no status. -/
theorem right_not_awaited : ∃ (t u : System Unit) (L : Layout) (J : Journal),
    Journaled (dying 34) (bare.setShellTask (.execute couple)) t L J ∧ Sides couple L [] 2 3 ∧
      t.result? = some (.ok 1) ∧ (t.step? (dying 34) 3).isSome = true ∧
      Reachable (dying 34) (bare.setShellTask (.execute (.exec [[0x61]]))) u ∧
      u.result? = some (.error (.wait 1 .invalid)) := by
  have hrun : (steps (dying 34)
      [0, 1, 1, 1, 1, 1, 3, 3, 2, 2, 2, 2, 1, 1, 1, 1, 1, 1, 1, 1, 1, 1, 0]
      (bare.setShellTask (.execute couple))).map
        (fun t => (t.result?, (t.step? (dying 34) 3).isSome)) = some (some (.ok 1), true) := by
    decide +kernel
  obtain ⟨t, ht, hpair⟩ := Option.map_eq_some_iff.mp hrun
  obtain ⟨hresult, hgoes⟩ := Prod.mk.inj hpair
  have hrun : (steps (dying 34) [0, 1, 1, 0]
      (bare.setShellTask (.execute (.exec [[0x61]])))).bind result? =
        some (.error (.wait 1 .invalid)) := by decide +kernel
  obtain ⟨u, hu, hlone⟩ := Option.bind_eq_some_iff.mp hrun
  exact ⟨t, u, _, _, journaled_of_steps .start ht,
    ⟨⟨_, _, rfl⟩, by decide +kernel, by decide +kernel⟩, hresult, hgoes, reachable_of_steps hu,
    hlone⟩

end System

end LineShell
