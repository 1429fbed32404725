import ApmeApi.Lib.Interaction

/-!
# Programs inside programs

A program over one signature is a program over another that offers its calls among others:
`Embedding` says under which calls and how their replies are read, `Prog.embed` translates.

`wp_embed` carries a guarantee of the calls of a program over to its translation. The machines
have to agree in one point only: a call of the translation must not get a reply that the call
itself could not get.
-/

namespace Interaction

variable {S T : Signature} {α : Type}

/-- The calls of `S` offered by `T`. -/
structure Embedding (S T : Signature) where
  call : S.Call → T.Call
  reply : ∀ c, T.Reply (call c) → S.Reply c

/-- The translation of a program. -/
def Prog.embed (E : Embedding S T) : Prog S α → Prog T α
  | .pure a => .pure a
  | .call c k => .call (E.call c) fun r => (k (E.reply c r)).embed E

/-- Sequencing translates to sequencing. -/
@[simp]
theorem Prog.embed_bind {β : Type} (E : Embedding S T) (p : Prog S α) (f : α → Prog S β) :
    (p >>= f).embed E = p.embed E >>= fun a => (f a).embed E := by
  change (p.bind f).embed E = (p.embed E).bind fun a => (f a).embed E
  induction p with
  | pure a => rfl
  | call c k ih =>
    simp only [Prog.bind, embed, ih]

/-- **A guarantee of the calls carries over.** -/
theorem wp_embed {M : Machine S} {N : Machine T} {E : Embedding S T} {C : S.Call → Prop}
    (hreply : ∀ i s c, ∃ i' s', (M.exec i' c s').1 = E.reply c (N.exec i (E.call c) s).1)
    {p : Prog S α} {h : List (Obs M)} (hp : wp (fun _ o => C o.call) (fun _ _ => True) p h)
    (h' : List (Obs N)) :
    wp (fun _ o => ∃ c, o.call = E.call c ∧ C c) (fun _ _ => True) (p.embed E) h' := by
  induction p generalizing h h' with
  | pure a => trivial
  | call c k ih =>
    intro i s
    obtain ⟨i', s', hr⟩ := hreply i s c
    obtain ⟨hc, hk⟩ := hp i' s'
    refine ⟨⟨c, rfl, hc⟩, ?_⟩
    have hk' := ih _ hk (h' ++ [⟨i, s, E.call c⟩])
    have heq : (Obs.reply ⟨i', s', c⟩ : S.Reply c) = E.reply c (Obs.reply ⟨i, s, E.call c⟩) := hr
    rwa [heq] at hk'

end Interaction
