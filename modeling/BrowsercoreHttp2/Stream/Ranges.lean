import BrowsercoreHttp2.Stream.Sent

/-!
# Ids and lengths

The ids in the table are those the manager has counted out and those the peer has promised, and no DATA frame is longer than
the largest frame size a peer may ask for. The frames a manager sends are in the ranges of the wire as far as these are.
-/

namespace BrowsercoreHttp2

open Relation

namespace Manager

variable {m m' : Manager}

/-! ### Where ids come from -/

theorem step_keys_from (m : Manager) (op : ManagerOp) : ∀ id ∈ (m.step op).streams.keys,
    id ∈ m.streams.keys ∨ op = .openStream ∧ id = m.nextStreamId ∨
      ∃ frame, op = .dispatch (.pushPromise frame) ∧ id = frame.promisedStreamId := by
  intro id hid
  by_cases hold : id ∈ m.streams.keys
  · exact .inl hold
  refine .inr ?_
  cases hreplaces : m.replaces op with
  | none =>
      obtain ⟨st', hst', hkey⟩ := List.mem_map.mp hid
      obtain ⟨st, hst, hsame, -⟩ := (step_tableMoves hreplaces).comes st' hst'
      have hbefore : st.id ∈ m.streams.keys := List.mem_map_of_mem hst
      exact absurd (hkey ▸ hsame ▸ hbefore) hold
  | some new =>
      have hnew : id = new := by
        rcases step_replaces hreplaces with hsame | ⟨st', hst', hset⟩
        · exact absurd (hsame ▸ hid) hold
        · rw [hset] at hid
          obtain ⟨st, hst, hkey⟩ := List.mem_map.mp hid
          rcases Table.mem_set hst with heq | ⟨hbefore, -⟩
          · rw [← hkey, heq, hst']
          · exact absurd (hkey ▸ List.mem_map_of_mem hbefore) hold
      cases op with
      | openStream => exact .inl ⟨rfl, hnew.trans (Option.some.inj hreplaces).symm⟩
      | dispatch frame =>
          cases frame with
          | pushPromise frame => exact .inr ⟨frame, rfl, hnew.trans (Option.some.inj hreplaces).symm⟩
          | _ => exact absurd hreplaces.symm (Option.some_ne_none _)
      | expectResponse streamId resolve reject =>
          have hkeys := m.keys_expectResponse streamId resolve reject
          exact absurd (hkeys ▸ hid) hold
      | _ => exact absurd hreplaces.symm (Option.some_ne_none _)

theorem steps_keys_from (m : Manager) {ops : List ManagerOp} (hopen : .openStream ∉ ops) : ∀ id ∈ (m.steps ops).streams.keys,
    id ∈ m.streams.keys ∨ ∃ frame, .dispatch (.pushPromise frame) ∈ ops ∧ id = frame.promisedStreamId := by
  induction ops generalizing m with
  | nil => exact fun id hid => .inl hid
  | cons op ops ih =>
      intro id hid
      obtain ⟨hfirst, hrest⟩ := not_or.mp (List.mem_cons.not.mp hopen)
      rcases ih (m.step op) hrest id hid with hbefore | ⟨frame, hframe, hid⟩
      · rcases m.step_keys_from op id hbefore with hold | ⟨hop, -⟩ | ⟨frame, hop, hid⟩
        · exact .inl hold
        · exact absurd hop.symm hfirst
        · exact .inr ⟨frame, hop ▸ List.mem_cons_self, hid⟩
      · exact .inr ⟨frame, List.mem_cons_of_mem op hframe, hid⟩

/-! ### How long DATA frames are -/

theorem sends_limited (h : ReflTransGen SendsChunk m m') :
    ∃ new, m'.effects = m.effects ++ new ∧ ∀ sent ∈ new.filterMap Effect.sentData, sent.2 ≤ m.maxFrameSize := by
  induction h with
  | refl => exact ⟨[], (List.append_nil _).symm, fun _ hmem => absurd hmem List.not_mem_nil⟩
  | tail hsends hchunk ih =>
      obtain ⟨new, hnew, hlimited⟩ := ih
      have hsize := (sends_settings hsends).1
      cases hchunk with
      | chunk st chunkLen isLast hget hpos hqueue hlimit =>
          refine ⟨new ++ [.sendFrame (dataFrame st.id (st.sendQueue.take chunkLen, isLast))], ?_, ?_⟩
          · rw [← List.append_assoc, ← hnew]
            rfl
          · rw [List.filterMap_append]
            refine List.forall_mem_append.mpr ⟨hlimited, List.forall_mem_singleton.mpr ?_⟩
            show (st.sendQueue.take chunkLen).length ≤ m.maxFrameSize
            rw [List.length_take_of_le hqueue, ← hsize]
            exact hlimit

/-- A DATA frame is no longer than the limit in force before the operation that sends it. -/
theorem step_limited (m : Manager) (op : ManagerOp) : ∀ sent ∈ (m.newEffects op).filterMap Effect.sentData, sent.2 ≤ m.maxFrameSize := by
  obtain ⟨m₁, m₂, hphases⟩ := m.step_phases op
  obtain ⟨sent, hsent, hlimited⟩ := sends_limited hphases.sends
  obtain ⟨rest, hrest, hquiet⟩ := hphases.settles.effects
  have hnew : m.newEffects op = sent ++ rest := by
    rw [newEffects, hrest, hsent, hphases.effects, List.append_assoc, List.drop_left]
  rw [hnew, List.filterMap_append, hquiet, List.append_nil, ← hphases.limit]
  exact hlimited

theorem run_sent_limited (ops : List ManagerOp) : ∀ frame, .data frame ∈ (run ops).sent → frame.payload.length ≤ maxMaxFrameSize := by
  induction ops using List.reverseRecOn with
  | nil => exact fun frame hmem => absurd hmem List.not_mem_nil
  | append_singleton ops op ih =>
      intro frame hmem
      rw [run_concat, sent, step_effects_eq, List.filterMap_append] at hmem
      rcases List.mem_append.mp hmem with hold | hnew
      · exact ih frame hold
      · obtain ⟨effect, heffect, hframe⟩ := List.mem_filterMap.mp hnew
        have hsent : effect = .sendFrame (.data frame) := by
          cases effect with
          | sendFrame other => exact congrArg Effect.sendFrame (Option.some.inj hframe)
          | _ => exact absurd hframe.symm (Option.some_ne_none _)
        have hlimited := (run ops).step_limited op (frame.streamId, frame.payload.length)
          (List.mem_filterMap.mpr ⟨effect, heffect, hsent ▸ rfl⟩)
        exact hlimited.trans (run_maxFrameSize ops).2

end Manager

end BrowsercoreHttp2
