import ProcessTest.Proofs.Run.Gate
import ProcessTest.Proofs.Store.Audit
import ProcessTest.Simulation

/-!
# Systems that host a store

A system may carry a call out before its deadline or long after it, in any order with other calls,
or never.  Whatever its timing, the store holds nothing but what checked operations have left.

* `Backend.Hosts` — a system changes its store by the calls it has received, and by nothing else.
* `Simulation.hosts_backend`, `Simulation.hosts_timed` — the simulated system does so.
* `Definition.audited_run` — the store passes an audit at every moment of every run.
-/

set_option autoImplicit false

namespace ProcessTest

/-- The store after operations, one after the other. -/
def Store.applyAll (operations : List Operation) (s : Store) : Store :=
  operations.foldl (fun s o => (s.apply o).2) s

section Hosts

variable {σ : Type} {store : σ → Store} {pending : σ → List Operation}

/-- Between two states a system has carried out some of the operations that were due, and keeps no
others to be carried out later. -/
def Carries (store : σ → Store) (pending : σ → List Operation) (due : List Operation)
    (s s' : σ) : Prop :=
  (∃ done, done ⊆ due ∧ store s' = (store s).applyAll done) ∧ pending s' ⊆ due

theorem Carries.mono {due due' : List Operation} {s s' : σ}
    (h : Carries store pending due s s') (hdue : due ⊆ due') :
    Carries store pending due' s s' := by
  obtain ⟨⟨done, hdone, hstore⟩, hpending⟩ := h
  exact ⟨⟨done, List.Subset.trans hdone hdue, hstore⟩, List.Subset.trans hpending hdue⟩

theorem Carries.trans {due : List Operation} {s s' s'' : σ}
    (h : Carries store pending due s s') (h' : Carries store pending due s' s'') :
    Carries store pending due s s'' := by
  obtain ⟨⟨done, hdone, hstore⟩, -⟩ := h
  obtain ⟨⟨more, hmore, hstore'⟩, hpending⟩ := h'
  refine ⟨⟨done ++ more, List.append_subset.2 ⟨hdone, hmore⟩, ?_⟩, hpending⟩
  rw [hstore', hstore]
  exact List.foldl_append.symm

/-- A system changes its store by setting the scope, and by the operations it has been called with:
at once, later on, in any order, or not at all.  While time passes it may carry out what is
pending. -/
structure Backend.Hosts (backend : Backend σ) (store : σ → Store)
    (pending : σ → List Operation) : Prop where
  enter : ∀ organization s, store (backend.enter organization s) = (store s).enter organization ∧
    pending (backend.enter organization s) ⊆ pending s
  tick : ∀ s, Carries store pending (pending s) s (backend.tick s)
  call : ∀ o deadline s, Carries store pending (o :: pending s) s (backend.call o deadline s).2
  pause : ∀ ms deadline s, Carries store pending (pending s) s (backend.pause ms deadline s).2
  query : ∀ table conditions s,
    Carries store pending (pending s) s (backend.query table conditions s).2

end Hosts

/-! ## The simulated system -/

namespace Simulation

/-- The operations of the abandoned calls. -/
def abandoned (s : Simulation) : List Operation := s.late.map LateCall.operation

/-- Late calls that are due are carried out in order; the others stay. -/
theorem applyDue_spec (time : Nat) (late : List LateCall) (store : Store) :
    ∃ done, done ++ (applyDue time late store).2 = late ∧
      (applyDue time late store).1 = store.applyAll (done.map LateCall.operation) := by
  induction late generalizing store with
  | nil => exact ⟨[], rfl, rfl⟩
  | cons call rest ih =>
    unfold applyDue
    split
    · obtain ⟨done, hsplit, hstore⟩ := ih (store.apply call.operation).2
      exact ⟨call :: done, by rw [List.cons_append, hsplit], hstore⟩
    · exact ⟨[], rfl, rfl⟩

variable {s s' : Simulation} {due : List Operation}

theorem carries_of_same (hstore : s'.store = s.store) (hlate : s'.late = s.late) :
    Carries Simulation.store abandoned (abandoned s) s s' := by
  refine ⟨⟨[], List.nil_subset _, hstore⟩, ?_⟩
  unfold abandoned
  rw [hlate]
  exact List.Subset.refl _

theorem carries_advance (time : Nat) (s : Simulation) :
    Carries Simulation.store abandoned (abandoned s) s (s.advance time) := by
  obtain ⟨done, hsplit, hstore⟩ := applyDue_spec time s.late s.store
  have hmap : abandoned s = done.map LateCall.operation ++ abandoned (s.advance time) := by
    unfold abandoned
    rw [← hsplit, List.map_append]
    rfl
  rw [hmap]
  exact ⟨⟨_, List.subset_append_left _ _, hstore⟩, List.subset_append_right _ _⟩

theorem carries_reply (o : Operation) (s : Simulation) :
    Carries Simulation.store abandoned (o :: abandoned s) s (s.reply o).2 :=
  ⟨⟨[o], List.cons_subset_cons o (List.nil_subset _), rfl⟩, List.subset_cons_self _ _⟩

/-- Time passes before an operation takes effect. -/
theorem carries_advance_reply (o : Operation) (time : Nat) (s : Simulation) :
    Carries Simulation.store abandoned (o :: abandoned s) s ((s.advance time).reply o).2 := by
  have hadvance := carries_advance time s
  have hreply := carries_reply o (s.advance time)
  exact (hadvance.mono (List.subset_cons_self o _)).trans
    (hreply.mono (List.cons_subset_cons o hadvance.2))

/-- A call that is abandoned joins those that take effect at their own time. -/
theorem carries_abandon (call : LateCall) (deadline : Nat) (s : Simulation) :
    Carries Simulation.store abandoned (call.operation :: abandoned s) s
      (advance deadline { s with late := s.late ++ [call] }) := by
  have hsubset : abandoned { s with late := s.late ++ [call] } ⊆
      call.operation :: abandoned s := by
    simp [abandoned]
  exact (carries_advance deadline _).mono hsubset

theorem carries_nextMishap (name : String) (s : Simulation) :
    Carries Simulation.store abandoned (abandoned s) s (s.nextMishap name).2 :=
  carries_of_same rfl rfl

theorem carries_answer (o : Operation) (s : Simulation) :
    Carries Simulation.store abandoned (o :: abandoned s) s (s.answer o).2 := by
  unfold answer
  split
  · exact (carries_of_same rfl rfl).mono (List.subset_cons_self o _)
  · exact carries_reply o s

theorem carries_call (o : Operation) (deadline : Option Nat) (s : Simulation) :
    Carries Simulation.store abandoned (o :: abandoned s) s (s.call o deadline).2 := by
  have hmishap := (carries_nextMishap (callName o) s).mono (List.subset_cons_self o _)
  unfold call
  rcases hnext : s.nextMishap (callName o) with ⟨_ | _ | _, s'⟩
  all_goals rw [hnext] at hmishap
  · have hdue : o :: abandoned s' ⊆ o :: abandoned s :=
      List.cons_subset.2 ⟨List.mem_cons_self, hmishap.2⟩
    refine hmishap.trans (Carries.mono ?_ hdue)
    simp only
    split
    · exact carries_answer _ s'
    · split
      · exact carries_advance_reply o _ s'
      · exact carries_abandon ⟨_, o⟩ _ s'
  · exact hmishap
  · exact hmishap

theorem carries_pause (ms : Nat) (deadline : Option Nat) (s : Simulation) :
    Carries Simulation.store abandoned (abandoned s) s (s.pause ms deadline).2 := by
  unfold pause
  split
  · exact carries_advance _ s
  · exact carries_advance _ s

theorem carries_query (table : String) (conditions : Entries) (s : Simulation) :
    Carries Simulation.store abandoned (abandoned s) s (s.query table conditions).2 := by
  have hmishap := carries_nextMishap "query" s
  unfold query
  rcases hnext : s.nextMishap "query" with ⟨_ | _ | _, s'⟩
  all_goals rw [hnext] at hmishap
  · exact hmishap.trans ((carries_advance _ s').mono hmishap.2)
  · exact hmishap
  · exact hmishap

/-- The simulated system hosts its store. -/
theorem hosts_backend : backend.Hosts Simulation.store abandoned where
  enter _ _ := ⟨rfl, List.Subset.refl _⟩
  tick _ := carries_of_same rfl rfl
  call := carries_call
  pause := carries_pause
  query := carries_query

theorem hosts_timed : timed.Hosts Simulation.store abandoned where
  enter _ _ := ⟨rfl, List.Subset.refl _⟩
  tick _ := carries_of_same rfl rfl
  call := carries_call
  pause := carries_pause
  query := carries_query

end Simulation

/-! ## Histories of a hosted store -/

section Runs

variable {σ : Type} {backend : Backend σ} {store : σ → Store} {pending : σ → List Operation}

/-- A history of the store behind a state: only checked operations are in it, and no others are
pending. -/
structure IsHistory (store : σ → Store) (pending : σ → List Operation) (s : σ)
    (commands : List Store.Command) : Prop where
  eq : store s = .after commands
  checked : ∀ o, .operate o ∈ commands → Store.Checked o
  pending : ∀ o ∈ pending s, Store.Checked o

theorem Store.applyAll_after (commands : List Command) (operations : List Operation) :
    (after commands).applyAll operations = after (commands ++ operations.map .operate) := by
  rw [after_append, List.foldl_map]
  rfl

/-- Operations that have passed their check carry a history on. -/
theorem IsHistory.carries {due : List Operation} {s s' : σ} {commands : List Store.Command}
    (h : IsHistory store pending s commands) (hdue : ∀ o ∈ due, Store.Checked o)
    (hs : Carries store pending due s s') :
    ∃ more, IsHistory store pending s' (commands ++ more) := by
  obtain ⟨⟨done, hdone, hstore⟩, hpending⟩ := hs
  refine ⟨done.map .operate, ?_, ?_, fun o ho => hdue o (hpending ho)⟩
  · rw [hstore, h.eq, Store.applyAll_after]
  · intro o ho
    rcases List.mem_append.1 ho with ho | ho
    · exact h.checked o ho
    · obtain ⟨o', ho', heq⟩ := List.mem_map.1 ho
      cases heq
      exact hdue o (hdone ho')

/-- Whatever a run asks of a system carries the history on. -/
theorem IsHistory.asks {s s' : σ} {commands : List Store.Command}
    (hosts : backend.Hosts store pending) (h : IsHistory store pending s commands)
    (hs : Asks backend s s') : ∃ more, IsHistory store pending s' (commands ++ more) := by
  cases hs with
  | nothing => exact ⟨[], by rwa [List.append_nil]⟩
  | tick => exact h.carries h.pending (hosts.tick s)
  | pause ms deadline => exact h.carries h.pending (hosts.pause ms deadline s)
  | query table conditions => exact h.carries h.pending (hosts.query table conditions s)
  | call deadline _ hcheck =>
    refine h.carries ?_ (hosts.call _ deadline s)
    exact List.forall_mem_cons.2 ⟨hcheck, h.pending⟩

/-- The store passes an audit at every point of a history, whatever pending operations follow. -/
theorem IsHistory.audited {s : σ} {commands : List Store.Command}
    (h : IsHistory store pending s commands) {late : List Operation} (hlate : late ⊆ pending s)
    {earlier : List Store.Command} (hearlier : earlier <+: commands ++ late.map .operate) :
    (Store.after earlier).Audited := by
  refine (Store.grown_after fun o ho => ?_).audited
  rcases List.mem_append.1 (hearlier.subset ho) with ho | ho
  · exact h.checked o ho
  · obtain ⟨o', ho', heq⟩ := List.mem_map.1 ho
    cases heq
    exact h.pending o (hlate ho')

namespace Definition

variable {s : σ}

theorem isHistory_firstMoment (hosts : backend.Hosts store pending) (hstore : store s = .empty)
    (hpending : pending s = []) (options : RunOptions) (now : String) (d : Definition) :
    ∃ commands, IsHistory store pending (d.firstMoment backend options now s).world commands := by
  have hnone : ∀ o ∈ pending s, Store.Checked o := by
    rw [hpending]
    exact fun _ h => absurd h List.not_mem_nil
  unfold firstMoment
  simp only
  split
  · exact ⟨[], hstore, fun _ h => absurd h List.not_mem_nil, hnone⟩
  · obtain ⟨henter, hsubset⟩ := hosts.enter d.setting.organization s
    refine ⟨[.enter d.setting.organization], ?_, ?_, fun o ho => hnone o (hsubset ho)⟩
    · rw [henter, hstore]
      rfl
    · intro o ho
      cases List.mem_singleton.1 ho

/-- **No run stores a malformed smart code or an unbalanced journal.**  The store has a history,
which grows from moment to moment; it passes an audit at every point of it, and so it does whenever
some of the pending operations take effect later. -/
theorem audited_run (hosts : backend.Hosts store pending) (hstore : store s = .empty)
    (hpending : pending s = []) (options : RunOptions) (now : String) (d : Definition) :
    ∃ history : Nat → List Store.Command, ∀ k,
      store (d.moment backend options now s k).world = .after (history k) ∧
      history k <+: history (k + 1) ∧
      ∀ late ⊆ pending (d.moment backend options now s k).world, ∀ earlier,
        earlier <+: history k ++ late.map .operate → (Store.after earlier).Audited := by
  obtain ⟨first, hfirst⟩ := isHistory_firstMoment hosts hstore hpending options now d
  have hnext : ∀ k commands,
      IsHistory store pending (d.moment backend options now s k).world commands →
      ∃ more, IsHistory store pending (d.moment backend options now s (k + 1)).world
        (commands ++ more) := by
    intro k commands h
    rw [moment_succ]
    exact h.asks hosts (asks_next (d.plan backend options s) _)
  choose! more hmore using hnext
  let history : Nat → List Store.Command :=
    Nat.rec first fun k commands => commands ++ more k commands
  have hall : ∀ k,
      IsHistory store pending (d.moment backend options now s k).world (history k) := by
    intro k
    induction k with
    | zero => exact hfirst
    | succ k ih => exact hmore k _ ih
  refine ⟨history, fun k => ⟨(hall k).eq, List.prefix_append _ _, ?_⟩⟩
  intro late hlate earlier hearlier
  exact (hall k).audited hlate hearlier

/-- A sale whose step gives up before the store has answered. -/
def impatientSale : Definition where
  version := "1.0"
  id := "impatient-sale"
  title := "A sale that is given up"
  industry := "salon"
  description := none
  setting := ⟨none, "salon", "USD", "en-US", none, none⟩
  personas := [("clerk", ⟨"clerk", []⟩)]
  setup := [⟨.entity ⟨"customer", "Ada", none, "HERA.SALON.CRM.ENT.CUST.v1", [], none⟩, none,
    some "ada", none⟩]
  steps := [⟨"sell", "", "clerk", [⟨.transaction ⟨"sale", "HERA.SALON.POS.TXN.SALE.v1", none, none,
      none, some "\x7b\x7bada.id\x7d\x7d", none,
      [⟨some .debit, none, none, none, some (.number (.int 7)), none, none⟩,
       ⟨some .credit, none, none, none, some (.text "7.0"), none, none⟩], none⟩, none, none, none⟩],
    [], [], 10, 0⟩]
  cleanup := []
  assertions := []
  metadata := .default
  policy := .default

theorem audited_impatientSale :
    Simulation.timed.Hosts Simulation.store Simulation.abandoned ∧
    (Simulation.ofLatency 40).store = .empty ∧ (Simulation.ofLatency 40).abandoned = [] ∧
    ∃ history : Nat → List Store.Command, ∀ k,
      (impatientSale.moment Simulation.timed ⟨false, false, none⟩ "2026-01-31T09:00:00Z"
        (.ofLatency 40) k).world.store = .after (history k) ∧
      history k <+: history (k + 1) ∧
      ∀ late ⊆ (impatientSale.moment Simulation.timed ⟨false, false, none⟩
        "2026-01-31T09:00:00Z" (.ofLatency 40) k).world.abandoned, ∀ earlier,
          earlier <+: history k ++ late.map .operate → (Store.after earlier).Audited :=
  ⟨Simulation.hosts_timed, rfl, rfl,
    audited_run Simulation.hosts_timed rfl rfl _ _ impatientSale⟩

/-- The sale is stored all the same, with its lines and after the end of the run. -/
example :
    let run := impatientSale.run Simulation.timed ⟨false, false, none⟩ "2026-01-31T09:00:00Z"
      (.ofLatency 40)
    run.world.store.rows.map Row.table = [.entities] ∧
      run.world.settle.store.rows.map Row.table = [.entities, .transactions, .lines, .lines] := by
  decide +kernel

end Definition

end Runs

end ProcessTest
