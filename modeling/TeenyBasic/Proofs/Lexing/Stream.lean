import TeenyBasic.Proofs.Generation.Passage
import TeenyBasic.Proofs.Lexing.Spelling

/-!
# Streams and single pulls

A generator pulls tokens from a cursor one at a time, while the stream of a cursor holds all of
them. Moving past tokens up to the end of the input goes through exactly the tokens of the stream,
and a stream without a fault can be moved past to its end.
-/

namespace TeenyBasic.Cursor

theorem stream_of_error {c c' : Cursor} {fault : Diagnostic} (h : next c = .error fault c') :
    stream c = ⟨[], some fault, c'⟩ := by
  rw [stream]
  split
  · rename_i fault' stop hnext
    rw [h] at hnext
    cases hnext
    rfl
  · rename_i hnext
    rw [h] at hnext
    cases hnext

theorem stream_of_endOfInput {c c' : Cursor} {token : Token} (h : next c = .ok token c')
    (hkind : token.kind = .endOfInput) : stream c = ⟨[token], none, c'⟩ := by
  rw [stream]
  split
  · rename_i hnext
    rw [h] at hnext
    cases hnext
  · rename_i hnext
    rw [h] at hnext
    cases hnext
    rw [dif_pos hkind]

theorem stream_of_ne_endOfInput {c c' : Cursor} {token : Token} (h : next c = .ok token c')
    (hkind : token.kind ≠ .endOfInput) :
    stream c = { stream c' with tokens := token :: (stream c').tokens } := by
  rw [stream]
  split
  · rename_i hnext
    rw [h] at hnext
    cases hnext
  · rename_i hnext
    rw [h] at hnext
    cases hnext
    rw [dif_neg hkind]

/-- Moving past tokens to the end of the input goes through the stream. -/
theorem stream_of_passes {c c' : Cursor} {first : Token} {tokens : List Token}
    {last : Outlook Cursor} (hfirst : next c = .ok first c')
    (hpasses : Passes (c', first) tokens last)
    (htokens : ∀ token ∈ tokens, token.kind ≠ .endOfInput) (hlast : last.2.kind = .endOfInput) :
    stream c = ⟨tokens ++ [last.2], none, last.1⟩ := by
  induction tokens generalizing c c' first with
  | nil =>
    obtain rfl := passes_nil_iff.mp hpasses
    exact stream_of_endOfInput hfirst hlast
  | cons token rest ih =>
    obtain ⟨rfl, following, supply, hpull, hrest⟩ := passes_cons_iff.mp hpasses
    have hlater := ih hpull hrest fun t ht ↦ htokens t (List.mem_cons_of_mem _ ht)
    rw [stream_of_ne_endOfInput hfirst (htokens _ List.mem_cons_self), hlater]
    rfl

theorem wellSpelled_of_passes {outlook last : Outlook Cursor} {tokens : List Token}
    (h : Passes outlook tokens last) (hfirst : outlook.2.WellSpelled) :
    ∀ token ∈ tokens, token.WellSpelled := by
  induction h with
  | refl _ => simp
  | step hpull _ ih =>
    have hrest := ih (wellSpelled_of_next hpull)
    intro token htoken
    rcases List.mem_cons.mp htoken with rfl | htoken
    · exact hfirst
    · exact hrest token htoken

/-- Every token but the last of a stream without a fault can be moved past. -/
theorem exists_passes_of_stream {c : Cursor} (h : (stream c).fault = none) :
    ∃ first c' tokens last, next c = .ok first c' ∧ Passes (c', first) tokens last ∧
      (∀ token ∈ tokens, token.IsInner) ∧ (stream c).tokens = tokens ++ [last.2] := by
  generalize hlength : c.rest.length = length
  induction length using Nat.strongRecOn generalizing c with
  | _ length ih =>
    cases hnext : next c with
    | error fault c' =>
      rw [stream_of_error hnext] at h
      cases h
    | ok first c' =>
      by_cases hkind : first.kind = .endOfInput
      · rw [stream_of_endOfInput hnext hkind]
        exact ⟨first, c', [], (c', first), rfl, .refl _, by simp, rfl⟩
      · rw [stream_of_ne_endOfInput hnext hkind] at h ⊢
        have hshorter := next_shortens hnext hkind
        obtain ⟨following, c'', tokens, last, hfollowing, hpasses, hinner, htokens⟩ :=
          ih _ (hlength ▸ hshorter) h rfl
        have hfirst : first.IsInner := ⟨wellSpelled_of_next hnext, hkind⟩
        have hall : ∀ token ∈ first :: tokens, token.IsInner := by
          simpa [hfirst] using hinner
        exact ⟨first, c', first :: tokens, last, rfl, .step hfollowing hpasses, hall,
          by rw [htokens, List.cons_append]⟩

end TeenyBasic.Cursor
