import CorpusAnnotator.Number.Decimal

/-! Values of TOML documents. -/
namespace CorpusAnnotator.Toml

inductive Value where
  | text (s : String)
  | integer (n : Int)
  | float (x : Number.Binary64)
  | flag (b : Bool)
  /-- A date, a time, or both, in its shortest written form. -/
  | moment (shown : String)
  | list (items : List Value)
  | table (entries : List (String × Value))
  deriving Repr

mutual

def Value.decEq (v w : Value) : Decidable (v = w) :=
  if h : v.ctorIdx = w.ctorIdx then
    match v, w, h with
    | .text s, .text t, _ => decidable_of_iff (s = t) (by simp)
    | .integer m, .integer n, _ => decidable_of_iff (m = n) (by simp)
    | .float x, .float y, _ => decidable_of_iff (x = y) (by simp)
    | .flag a, .flag b, _ => decidable_of_iff (a = b) (by simp)
    | .moment s, .moment t, _ => decidable_of_iff (s = t) (by simp)
    | .list vs, .list ws, _ =>
      have := itemsDecEq vs ws
      decidable_of_iff (vs = ws) (by simp)
    | .table es, .table es', _ =>
      have := entriesDecEq es es'
      decidable_of_iff (es = es') (by simp)
  else isFalse fun heq => h (congrArg _ heq)

def itemsDecEq : (vs ws : List Value) → Decidable (vs = ws)
  | [], [] => isTrue rfl
  | [], _ :: _ => isFalse nofun
  | _ :: _, [] => isFalse nofun
  | v :: vs, w :: ws =>
    have := v.decEq w
    have := itemsDecEq vs ws
    decidable_of_iff (v = w ∧ vs = ws) (by simp)

def entriesDecEq : (es es' : List (String × Value)) → Decidable (es = es')
  | [], [] => isTrue rfl
  | [], _ :: _ => isFalse nofun
  | _ :: _, [] => isFalse nofun
  | (s, v) :: es, (t, w) :: es' =>
    have := v.decEq w
    have := entriesDecEq es es'
    decidable_of_iff (s = t ∧ v = w ∧ es = es') (by simp [and_assoc])

end

instance : DecidableEq Value := Value.decEq

end CorpusAnnotator.Toml
