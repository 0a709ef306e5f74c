import ScriptEngine.Proofs.Covering
import ScriptEngine.Proofs.Reading
/-! Spans over pieces of a source. The tokens of a source stand one behind the other, so what is joined
from the place of a first and a last token covers all the tokens between them. -/

namespace ScriptEngine

def Span.over : List Token → Span
  | [] => .nowhere
  | first :: rest => { first.span with stop := (rest.getLastD first).span.stop }

def Span.Inside (inner outer : Span) : Prop := outer.start ≤ inner.start ∧ inner.stop ≤ outer.stop

theorem Span.Inside.trans {inner middle outer : Span} (first : inner.Inside middle)
    (second : middle.Inside outer) : inner.Inside outer :=
  ⟨Nat.le_trans second.1 first.1, Nat.le_trans first.2 second.2⟩

def Span.Before (first second : Span) : Prop := first.stop ≤ second.start

structure InOrder (tokens : List Token) : Prop where
  apart : tokens.Pairwise fun token later => token.span.Before later.span
  forward : ∀ token ∈ tokens, token.span.start ≤ token.span.stop

theorem tokenize_inOrder {source : String} {tokens : List Token}
    (lexed : tokenize source = .ok tokens) : InOrder tokens where
  apart := (tokenize_laid lexed).ordered
  forward := by
    intro token among
    obtain ⟨passed, lexeme, behind, -, -, span⟩ := (tokenize_laid lexed).found among
    rw [span]
    exact Nat.le_add_right _ _

section

variable {tokens one other : List Token} {token : Token}

theorem over_prefix (starts : one <+: tokens) (first : one ≠ []) :
    (Span.over one).line = (Span.over tokens).line ∧ (Span.over one).col = (Span.over tokens).col ∧
      (Span.over one).start = (Span.over tokens).start := by
  obtain ⟨rest, rfl⟩ := starts
  cases one with
  | nil => exact absurd rfl first
  | cons token one => exact ⟨rfl, rfl, rfl⟩

theorem over_concat (init : List Token) (last : Token) :
    (Span.over (init ++ [last])).stop = last.span.stop := by
  cases init with
  | nil => rfl
  | cons first init =>
      have last : (init ++ [last]).getLastD first = last := List.getLastD_concat
      rw [List.cons_append, Span.over, last]

theorem over_suffix (ends : other <:+ tokens) (last : other ≠ []) :
    (Span.over other).stop = (Span.over tokens).stop := by
  obtain ⟨rest, rfl⟩ := ends
  cases other using List.reverseRecOn with
  | nil => exact absurd rfl last
  | append_singleton init token => rw [over_concat, ← List.append_assoc, over_concat]

theorem over_start (filled : tokens ≠ []) :
    ∃ token ∈ tokens, token.span.start = (Span.over tokens).start := by
  cases tokens with
  | nil => exact absurd rfl filled
  | cons token rest => exact ⟨token, List.mem_cons_self .., rfl⟩

theorem over_stop (filled : tokens ≠ []) :
    ∃ token ∈ tokens, token.span.stop = (Span.over tokens).stop := by
  cases tokens using List.reverseRecOn with
  | nil => exact absurd rfl filled
  | append_singleton init last =>
      exact ⟨last, List.mem_append_right _ (List.mem_singleton_self _), (over_concat ..).symm⟩

namespace InOrder

theorem sublist (ordered : InOrder tokens) (part : one.Sublist tokens) : InOrder one :=
  ⟨ordered.apart.sublist part, fun token among => ordered.forward token (part.subset among)⟩

theorem inside (ordered : InOrder tokens) (among : token ∈ tokens) :
    token.span.Inside (.over tokens) := by
  constructor
  · cases tokens with
    | nil => cases among
    | cons first rest =>
        rcases List.mem_cons.mp among with rfl | among
        · exact Nat.le_refl _
        · exact Nat.le_trans (ordered.forward first (List.mem_cons_self ..))
            ((List.pairwise_cons.mp ordered.apart).1 token among)
  · cases tokens using List.reverseRecOn with
    | nil => cases among
    | append_singleton init last =>
        have ends : last ∈ init ++ [last] := List.mem_append_right _ (List.mem_singleton_self _)
        rw [over_concat]
        rcases List.mem_append.mp among with among | among
        · exact Nat.le_trans ((List.pairwise_append.mp ordered.apart).2.2 token among last
            (List.mem_singleton_self _)) (ordered.forward last ends)
        · rw [List.mem_singleton.mp among]

theorem over_inside (ordered : InOrder tokens) (part : one.Sublist tokens) (filled : one ≠ []) :
    (Span.over one).Inside (.over tokens) := by
  obtain ⟨first, starts, start⟩ := over_start filled
  obtain ⟨last, ends, stop⟩ := over_stop filled
  exact ⟨start ▸ (ordered.inside (part.subset starts)).1,
    stop ▸ (ordered.inside (part.subset ends)).2⟩

theorem over_before (ordered : InOrder (one ++ other)) (first : one ≠ []) (last : other ≠ []) :
    (Span.over one).Before (.over other) := by
  obtain ⟨token, ends, stop⟩ := over_stop first
  obtain ⟨later, starts, start⟩ := over_start last
  rw [Span.Before, ← stop, ← start]
  exact (List.pairwise_append.mp ordered.apart).2.2 token ends later starts

theorem cover_over (ordered : InOrder tokens) (starts : one <+: tokens) (ends : other <:+ tokens)
    (first : one ≠ []) (last : other ≠ []) :
    (Span.over one).cover (.over other) = .over tokens := by
  obtain ⟨line, col, start⟩ := over_prefix starts first
  have stop := over_suffix ends last
  have lower := (ordered.over_inside starts.sublist first).2
  have upper := (ordered.over_inside ends.sublist last).1
  have leads : ¬ (Span.over other).start < (Span.over one).start := by omega
  rw [Span.cover, if_neg leads, line, col, start, stop, Nat.min_eq_left upper, Nat.max_eq_right lower]

theorem pairwise_over {pieces : List (List Token)} (ordered : InOrder pieces.flatten)
    (filled : ∀ piece ∈ pieces, piece ≠ []) : (pieces.map Span.over).Pairwise Span.Before := by
  induction pieces with
  | nil => exact .nil
  | cons piece rest ih =>
      rw [List.flatten_cons] at ordered
      obtain ⟨begun, others⟩ := List.forall_mem_cons.mp filled
      refine List.pairwise_cons.mpr ⟨fun span among => ?_,
        ih (ordered.sublist (List.sublist_append_right ..)) others⟩
      obtain ⟨other, known, rfl⟩ := List.mem_map.mp among
      exact (ordered.sublist ((List.sublist_flatten_of_mem known).append_left piece)).over_before
        begun (others other known)

theorem cover_ends {first last : Token} (ordered : InOrder (first :: tokens ++ [last])) :
    first.span.cover last.span = .over (first :: tokens ++ [last]) :=
  ordered.cover_over (List.prefix_append [first] (tokens ++ [last]))
    (List.suffix_append (first :: tokens) [last]) (List.cons_ne_nil _ _) (List.cons_ne_nil _ _)

end InOrder

variable {stream later : TokenStream}

theorem TokenStream.Moves.inOrder (moves : stream.Moves later tokens)
    (ordered : InOrder stream.ahead) : InOrder tokens ∧ InOrder later.ahead := by
  rw [moves.ahead] at ordered
  exact ⟨ordered.sublist (List.sublist_append_left ..), ordered.sublist (List.sublist_append_right ..)⟩

theorem TokenStream.Within.inOrder (within : stream.Within tokens) (ordered : InOrder tokens) :
    InOrder stream.ahead := by
  subst within
  exact ordered.sublist (List.sublist_append_right ..)

theorem TokenStream.Moves.spanSince (moves : stream.Moves later tokens) (ordered : InOrder tokens)
    (starts : one <+: tokens) (first : one ≠ []) : later.spanSince (.over one) = .over tokens := by
  cases tokens using List.reverseRecOn with
  | nil => exact absurd (List.prefix_nil.mp starts) first
  | append_singleton init last =>
      have passed : later.previous? = some last := by
        simp [previous?, moves.passed]
      rw [TokenStream.spanSince, passed]
      exact ordered.cover_over starts (List.suffix_append init [last]) first (List.cons_ne_nil _ _)

theorem TokenStream.Moves.spanSince_first (moves : stream.Moves later (token :: tokens))
    (ordered : InOrder (token :: tokens)) :
    later.spanSince token.span = .over (token :: tokens) :=
  moves.spanSince ordered (List.prefix_append [token] tokens) (List.cons_ne_nil _ _)

end

end ScriptEngine
