/-
  PlcBridge.Bridge.WriteOrder

  Writes reach a device in the order in which the bridge channel received them,
  whether their calls wait for a confirmation or not.
-/
import PlcBridge.Bridge.Confirmed

namespace PlcBridge.Bridge

open PlcBridge.Lib

variable {routing : String → Option Nat} {s : Sys} {i : Nat} {d : Driver}

namespace Sound

/-- The calls of what a driver has sent, and that each is one. -/
theorem map_callOf_sent (h : Sound routing s) (hd : s.drivers[i]? = some d) :
    d.sent.map s.callOf = (d.sent.filterMap s.callOf).map some := by
  have hsome : ∀ req ∈ d.sent, (s.callOf req).isSome := by
    intro req hreq
    obtain ⟨k, n, hk, hn, -⟩ := h.origin hd hreq
    rw [Sys.callOf, hk, Option.bind_some, hn]
    rfl
  generalize d.sent = l at hsome
  induction l with
  | nil => rfl
  | cons req reqs ih =>
      rw [List.forall_mem_cons] at hsome
      obtain ⟨n, hn⟩ := Option.isSome_iff_exists.mp hsome.1
      rw [List.map_cons, List.filterMap_cons_some hn, List.map_cons, hn, ih hsome.2]

/-- Channel numbers increase along what was sent, and with them the calls. -/
theorem calls_increasing (h : Sound routing s) (hd : s.drivers[i]? = some d) :
    d.sent.Pairwise fun a b => ∀ n n', s.callOf a = some n → s.callOf b = some n' → n < n' := by
  have howners := h.owners_increasing
  rw [List.pairwise_iff_getElem] at howners
  refine ((h.drivers hd).ordered.sublist d.sent_sublist).imp ?_
  intro a b hab n n' hn hn'
  obtain ⟨k, hk, howner⟩ := callOf_eq_some.mp hn
  obtain ⟨k', hk', howner'⟩ := callOf_eq_some.mp hn'
  rw [token, token, hk, hk'] at hab
  obtain ⟨hlt, hget⟩ := List.getElem?_eq_some_iff.mp howner
  obtain ⟨hlt', hget'⟩ := List.getElem?_eq_some_iff.mp howner'
  rw [← hget, ← hget']
  exact howners k k' hlt hlt' hab

theorem callOf_received (h : Sound routing s) {req : WriteRequest} {n : Nat} (hn : s.callOf req = some n) :
    n ∈ s.received := by
  obtain ⟨k, -, howner⟩ := callOf_eq_some.mp hn
  exact h.arrivals.arrived.subset (List.mem_append_left _ (List.mem_of_getElem? howner))

end Sound

/-- However calls, the bridge thread, drivers and timeouts interleave: the
    writes a driver has sent come from a part of the writes the bridge channel
    received, in the same order; and of any two of them the one received later
    was sent later. -/
theorem writes_sent_in_order {clock : Nat → DateTime} {defs : List TagDefinition} {r₀ : TagRegistry}
    (hregistry : TagRegistry.fromDefinitions clock defs = .ok r₀) {drivers : List Driver}
    (hfresh : ∀ d ∈ drivers, d.Fresh)
    (hrun : Reaches (step routing) (fun _ _ => True) (.init r₀ drivers) s) :
    ∀ d ∈ s.drivers, (d.sent.map s.callOf).Sublist (s.received.map some) ∧
      d.sent.Pairwise fun a b => ∀ n n', s.callOf a = some n → s.callOf b = some n' →
        s.received.idxOf n < s.received.idxOf n' := by
  have h : Sound routing s := sound_of_reaches hregistry hfresh hrun
  intro d hd
  obtain ⟨i, hi⟩ := List.mem_iff_getElem?.mp hd
  have hcalls := h.calls_increasing hi
  refine ⟨?_, ?_⟩
  · rw [h.map_callOf_sent hi]
    refine (sublist_of_increasing ?_ h.arrivals.increasing ?_).map some
    · exact List.pairwise_filterMap.mpr (hcalls.imp fun hab n hn n' hn' => hab n n' hn hn')
    · intro n hn
      obtain ⟨req, -, hreq⟩ := List.mem_filterMap.mp hn
      exact h.callOf_received hreq
  · refine hcalls.imp ?_
    intro a b hab n n' hn hn'
    exact idxOf_lt_of_lt h.arrivals.increasing (h.callOf_received hn) (h.callOf_received hn')
      (hab n n' hn hn')

/-- Two writes of which the first is no longer waited for when the driver gets
    to them. -/
def lateEvents : List Event :=
  [.call "tank" .confirmedAck (some (.uint16 5)), .call "tank" .queuedAck (some (.uint16 6)),
   .receive, .enqueue, .confirmTimeout, .answer, .giveUp 0, .receive, .enqueue,
   .turn 0 .take, .turn 0 .write, .turn 0 .take, .turn 0 .write]

def lateEnd : Sys :=
  (runEvents (step tankRoute) (fun _ _ => True) lateEvents (.init tankRegistry [tankDriver])).getD
    (.init tankRegistry [])

theorem writes_sent_in_order_late :
    lateEnd.drivers.map (fun d => d.sent.map lateEnd.callOf) = [[some 0, some 1]] ∧
    lateEnd.received = [0, 1] ∧
    ∀ d ∈ lateEnd.drivers, (d.sent.map lateEnd.callOf).Sublist (lateEnd.received.map some) := by
  have hregistry : TagRegistry.fromDefinitions (fun _ => .unixEpoch) [tankDefinition] = .ok tankRegistry :=
    rfl
  have hrun : Reaches (step tankRoute) (fun _ _ => True) (.init tankRegistry [tankDriver]) lateEnd :=
    Reaches.refl.runEvents lateEvents rfl
  exact ⟨rfl, rfl, fun d hd => (writes_sent_in_order hregistry tankDriver_fresh hrun d hd).1⟩

end PlcBridge.Bridge
