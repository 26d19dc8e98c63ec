import TabletopChat.Prompt.Tag

/-!
# Prompt/Answerer — whoever answers questions

- `Question` : what is asked
- `Reply`    : an answer, and what is shown on the way to it
- `Answerer` : an answer to every question
-/

namespace TabletopChat

namespace Prompt

inductive Question
  | text (query fallback : Text)
  | choice (query : Text) (kind : Kind) (choices : List Choice)
  deriving DecidableEq, Repr

def Question.query : Question → Text
  | .text query _ => query
  | .choice query _ _ => query

/-- An answer, which is missing if the question was dismissed, the text that was shown meanwhile, and
the state that the answerer is in afterwards. -/
structure Reply (σ α : Type) where
  answer : Option α
  shown : Text
  next : σ

/-- An answer to every question, which may depend on what was answered before. -/
structure Answerer (σ : Type) where
  text : Text → Text → σ → Reply σ Text
  choice : Text → Kind → List Choice → σ → Reply σ (List Choice)

namespace Answerer

/-- Whether an answerer chooses only from what is offered. -/
def Faithful {σ : Type} (a : Answerer σ) : Prop :=
  ∀ query kind choices s chosen,
    (a.choice query kind choices s).answer = some chosen → ∀ c ∈ chosen, c ∈ choices

end Answerer

end Prompt

end TabletopChat
