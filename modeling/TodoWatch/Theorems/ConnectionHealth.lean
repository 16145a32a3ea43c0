import TodoWatch.Theorems.ConnectionSingleton

/-! # Does `getConnection` hand out a dead client?

The flag is one for all clients: the `ready` of an old client raises it for the new one that the object
stores, and a call whose own client is connected raises it, and returns what the object stores, without a
look at that client. In every other step the flag and the stored client stay in accord. -/

namespace TodoWatch
namespace Connection

variable {w w' : World} {e : Event} {c began : Nat}

/-- Under the flag the stored client is ready, and every client that a call returned was ready then. -/
structure Healthy (w : World) : Prop where
  stored : w.obj.connected = true → w.isReady w.obj.client = true
  returned : ∀ x ∈ w.returns, x.client ≠ none → x.ready = true

/-- The flag is raised only for a stored client that is ready: a client becomes ready that is stored, or
    the stored one is ready already, and so it is when a call goes on after its `connect()`. -/
def RaisesFlagForStored (w : World) : Event → Prop
  | .ready c => w.obj.client = some c ∨ w.isReady w.obj.client = true
  | .resolved _ => w.isReady w.obj.client = true
  | _ => True

theorem isReady_setClient {client : Client} {x : Option Nat} :
    (w.setClient c client).isReady x = if x = some c then client.ready else w.isReady x := by
  cases x with
  | none => rfl
  | some d =>
    by_cases hd : d = c
    · subst hd
      simp [World.isReady, World.setClient]
    · simp [World.isReady, World.setClient, hd]

theorem isReady_ready {x : Option Nat} : (w.ready c).isReady x = true ↔ x = some c ∨ w.isReady x = true := by
  rw [World.ready, isReady_setClient]
  split
  · rename_i hx
    exact iff_of_true rfl (Or.inl hx)
  · rename_i hx
    exact (or_iff_right hx).symm

theorem isReady_settled {client : Client} (h : client.ready = (w.clients c).ready) {x : Option Nat} :
    (w.setClient c client).isReady x = w.isReady x := by
  rw [isReady_setClient]
  split
  · rename_i hx
    rw [hx, h]
    rfl
  · rfl

theorem isReady_resolved {x : Option Nat} : (w.resolved c began).isReady x = w.isReady x :=
  @isReady_settled w c { w.clients c with awaited := none } rfl x

theorem isReady_rejected {x : Option Nat} : (w.rejected c began).isReady x = w.isReady x :=
  @isReady_settled w c { w.clients c with awaited := none, isOpen := false } rfl x

/-! ### Steps -/

theorem healthy_step (h : Healthy w) (hc : RaisesFlagForStored w e) (hs : w.step e = some w') : Healthy w' := by
  rcases step_cases hs with ⟨rfl, rfl⟩ | ⟨c, rfl, hopen, rfl⟩ | ⟨c, rfl, -, rfl⟩ | ⟨c, rfl, -, rfl⟩ |
    ⟨c, began, rfl, -, -, rfl⟩ | ⟨c, began, rfl, -, -, rfl⟩
  · rcases call_eq w with ⟨hconn, hcall⟩ | ⟨hconn, hcall⟩
    · rw [hcall]
      refine ⟨h.stored, fun x hx hne => ?_⟩
      rcases List.mem_cons.mp hx with rfl | hx
      · exact h.stored hconn
      · exact h.returned x hx hne
    · rw [hcall]
      refine ⟨fun hflag => ?_, h.returned⟩
      cases hflag
  · exact ⟨fun _ => isReady_ready.mpr hc, h.returned⟩
  · refine ⟨fun hflag => ?_, h.returned⟩
    cases hflag
  · refine ⟨fun hflag => ?_, h.returned⟩
    cases hflag
  · have hready : (w.resolved c began).isReady w.obj.client = true := isReady_resolved.trans hc
    refine ⟨fun _ => hready, fun x hx hne => ?_⟩
    rcases List.mem_cons.mp hx with rfl | hx
    · exact hready
    · exact h.returned x hx hne
  · refine ⟨fun hflag => isReady_rejected.trans (h.stored hflag), fun x hx hne => ?_⟩
    rcases List.mem_cons.mp hx with rfl | hx
    · exact absurd rfl hne
    · exact h.returned x hx hne

/-- Any other step leaves the flag up over a stored client that is not ready. -/
theorem not_healthy_step (hc : ¬RaisesFlagForStored w e) (hs : w.step e = some w') : ¬Healthy w' := by
  intro h
  rcases step_cases hs with ⟨rfl, -⟩ | ⟨c, rfl, -, rfl⟩ | ⟨c, rfl, -, -⟩ | ⟨c, rfl, -, -⟩ |
    ⟨c, began, rfl, -, -, rfl⟩ | ⟨c, began, rfl, -, -, -⟩
  · exact hc trivial
  · exact hc (isReady_ready.mp (h.stored rfl))
  · exact hc trivial
  · exact hc trivial
  · exact hc (isReady_resolved.symm.trans (h.stored rfl))
  · exact hc trivial

/-! ### One client at a time -/

/-- No client fails between its `ready` and the return of the call that awaits it. -/
def FailsApart (w : World) : Event → Prop
  | .error c => (w.clients c).awaited ≠ none → (w.clients c).wasReady = false
  | .ended c => (w.clients c).awaited ≠ none → (w.clients c).wasReady = false
  | _ => True

/-- An open client is the stored one, and it is ready when its call can go on. -/
structure InTurn (w : World) : Prop where
  stored : ∀ c, (w.clients c).isOpen = true → w.obj.client = some c
  resumes : ∀ c, (w.clients c).awaited ≠ none → (w.clients c).wasReady = true →
    (w.clients c).isOpen = true ∧ (w.clients c).ready = true

theorem InTurn.setClient {client : Client} (h : InTurn w) (hstored : client.isOpen = true → w.obj.client = some c)
    (hresumes : client.awaited ≠ none → client.wasReady = true → client.isOpen = true ∧ client.ready = true) :
    InTurn (w.setClient c client) := by
  refine ⟨fun d hd => ?_, fun d hd hready => ?_⟩
  · by_cases hne : d = c
    · subst hne
      exact hstored (by simpa [World.setClient] using hd)
    · exact h.stored d (by simpa [World.setClient, hne] using hd)
  · by_cases hne : d = c
    · subst hne
      simp only [World.setClient, Function.update_self] at hd hready ⊢
      exact hresumes hd hready
    · simp only [World.setClient, Function.update_of_ne hne] at hd hready ⊢
      exact h.resumes d hd hready

theorem inTurn_step (h : InTurn w) (hc : CreatesAlone w e ∧ FailsApart w e) (hs : w.step e = some w') : InTurn w' := by
  obtain ⟨halone, hapart⟩ := hc
  rcases step_cases hs with ⟨rfl, rfl⟩ | ⟨c, rfl, hopen, rfl⟩ | ⟨c, rfl, hopen, rfl⟩ | ⟨c, rfl, -, rfl⟩ |
    ⟨c, began, rfl, -, -, rfl⟩ | ⟨c, began, rfl, -, -, rfl⟩
  · rcases call_eq w with ⟨-, hcall⟩ | ⟨hconn, hcall⟩
    · rw [hcall]
      exact ⟨h.stored, h.resumes⟩
    · -- The new client is the only one that is open.
      have hnone := halone rfl hconn
      have hothers : InTurn { w with obj := ⟨false, some w.created⟩, created := w.created + 1 } :=
        ⟨fun d hd => absurd hd (by simp [hnone d]), h.resumes⟩
      rw [hcall]
      exact hothers.setClient (fun _ => rfl) fun _ hready => by cases hready
  · have hflag : InTurn { w with obj := w.obj.onReady } := ⟨h.stored, h.resumes⟩
    exact hflag.setClient (fun _ => h.stored c hopen) fun _ _ => ⟨hopen, rfl⟩
  · have hflag : InTurn { w with obj := w.obj.onError, faults := w.faults + 1 } := ⟨h.stored, h.resumes⟩
    refine hflag.setClient (fun _ => h.stored c hopen) fun hawaited hready => ?_
    rw [hapart hawaited] at hready
    cases hready
  · have hflag : InTurn { w with obj := w.obj.onEnd, faults := w.faults + 1 } := ⟨h.stored, h.resumes⟩
    refine hflag.setClient (fun hopen => by cases hopen) fun hawaited hready => ?_
    rw [hapart hawaited] at hready
    cases hready
  · have hset : InTurn (w.setClient c { w.clients c with awaited := none }) :=
      h.setClient (h.stored c) fun hawaited => absurd rfl hawaited
    exact ⟨hset.stored, hset.resumes⟩
  · have hset : InTurn (w.setClient c { w.clients c with awaited := none, isOpen := false }) :=
      h.setClient (fun hopen => by cases hopen) fun hawaited => absurd rfl hawaited
    exact ⟨hset.stored, hset.resumes⟩

/-- Clients in turn raise the flag for themselves. -/
theorem InTurn.raises (h : InTurn w) (hs : w.step e = some w') : RaisesFlagForStored w e := by
  rcases step_cases hs with ⟨rfl, -⟩ | ⟨c, rfl, hopen, -⟩ | ⟨c, rfl, -, -⟩ | ⟨c, rfl, -, -⟩ |
    ⟨c, began, rfl, hawaited, hready, -⟩ | ⟨c, began, rfl, -, -, -⟩
  · trivial
  · exact Or.inl (h.stored c hopen)
  · trivial
  · trivial
  · obtain ⟨hopen, hnow⟩ := h.resumes c (by simp [hawaited]) hready
    show w.isReady w.obj.client = true
    rw [h.stored c hopen]
    exact hnow
  · trivial

end Connection

open Connection

/-- In a run of calls and events the flag is up only over a ready client, and calls return only ready
    clients, exactly when each step that raises the flag does so for a stored client that is ready. -/
theorem getConnection_healthy_iff (events : List Event) :
    Runs.Always World.step Healthy .start events ↔ Runs.Meets World.step RaisesFlagForStored .start events := by
  have hstart : Healthy .start := ⟨fun h => absurd h (by decide), fun x hx => absurd hx List.not_mem_nil⟩
  exact Runs.always_iff_meets (fun _ _ _ h hc hs => healthy_step h hc hs) (fun _ h => h)
    (fun _ _ _ _ hc hs => not_healthy_step hc hs) hstart

/-- When each call that creates a client begins while none is open, and no client fails between its `ready` and the
    return of its call: the flag is up only over a ready client, calls return only ready clients, and one client is open
    at most. -/
theorem getConnection_inTurn (events : List Event)
    (h : Runs.Meets World.step (fun w e => CreatesAlone w e ∧ FailsApart w e) .start events) :
    Runs.Always World.step (fun w => Healthy w ∧ AtMostOneOpen w) .start events := by
  have hstart : Healthy .start ∧ InTurn .start :=
    ⟨⟨fun h => absurd h (by decide), fun x hx => absurd hx List.not_mem_nil⟩,
      fun c hc => (by cases hc), fun c _ hc => by cases hc⟩
  have hinv := Runs.always_of_inv (fun w e w' (hw : Healthy w ∧ InTurn w) hc hs =>
    ⟨healthy_step hw.1 (hw.2.raises hs) hs, inTurn_step hw.2 hc hs⟩) hstart h
  refine hinv.imp fun w ⟨hhealthy, hturn⟩ => ⟨hhealthy, fun c d hc hd => ?_⟩
  exact Option.some.inj ((hturn.stored c hc).symm.trans (hturn.stored d hd))

/-- The first client is lost after its call returned, and the next call begins when it is closed. -/
theorem getConnection_inTurn_reconnect :
    let events : List Event :=
      [.call, .ready 0, .resolved 0, .call, .error 0, .ended 0, .call, .ready 1, .resolved 1]
    ∃ w, Runs.run World.step .start events = some w ∧
      w.returns.map Return.client = [some 1, some 0, some 0] ∧ Healthy w ∧ AtMostOneOpen w := by
  intro events
  have hmeets : Runs.Meets World.step (fun w e => CreatesAlone w e ∧ FailsApart w e) .start events := by
    have hother : ∀ {w : World} {e : Event}, e ≠ .call → FailsApart w e → CreatesAlone w e ∧ FailsApart w e :=
      fun hne hapart => ⟨fun he => absurd he hne, hapart⟩
    refine fun t ht => ⟨⟨fun _ _ c => rfl, trivial⟩, ?_⟩
    obtain rfl := Option.some.inj ht
    refine fun t ht => ⟨hother (by simp) trivial, ?_⟩
    obtain rfl := Option.some.inj ht
    refine fun t ht => ⟨hother (by simp) trivial, ?_⟩
    obtain rfl := Option.some.inj ht
    refine fun t ht => ⟨⟨fun _ hconn => (by cases hconn), trivial⟩, ?_⟩
    obtain rfl := Option.some.inj ht
    refine fun t ht => ⟨hother (by simp) (fun h => absurd rfl h), ?_⟩
    obtain rfl := Option.some.inj ht
    refine fun t ht => ⟨hother (by simp) (fun h => absurd rfl h), ?_⟩
    obtain rfl := Option.some.inj ht
    refine fun t ht => ⟨⟨fun _ _ c => ?_, trivial⟩, ?_⟩
    · cases c with
      | zero => rfl
      | succ c => rfl
    obtain rfl := Option.some.inj ht
    refine fun t ht => ⟨hother (by simp) trivial, ?_⟩
    obtain rfl := Option.some.inj ht
    exact fun t ht => ⟨hother (by simp) trivial, trivial⟩
  obtain ⟨w, hrun, hreturns⟩ : ∃ w, Runs.run World.step .start events = some w ∧
    w.returns.map Return.client = [some 1, some 0, some 0] := ⟨_, rfl, rfl⟩
  exact ⟨w, hrun, hreturns, (getConnection_inTurn events hmeets).last hrun⟩
/-- Two calls overlap, and the client of the first becomes ready: a third call returns the client of the
    second, which is still connecting. -/
theorem getConnection_half_open : ∃ w, Runs.run World.step .start [.call, .call, .ready 0, .call] = some w ∧
    w.obj = ⟨true, some 1⟩ ∧ w.returns = [⟨some 1, 0, 0, false⟩] ∧ (w.clients 1).wasReady = false ∧ ¬Healthy w := by
  refine ⟨_, rfl, by decide, by decide, by decide, fun h => ?_⟩
  exact absurd (h.stored (by decide)) (by decide)

end TodoWatch
