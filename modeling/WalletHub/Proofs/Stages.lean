import Mathlib.Logic.ExistsUnique
import WalletHub.Event

/-!
# Lives of records

To the life of a record a notice about it is one of four marks: the record comes into being, moves
to another state, is spoken of, or comes to its end. `Stage` says what one change may do to a record
and how it is marked. Two things follow for whole rows of marks. They form brackets, each from a
creation to the end, one after the other (`Stage.row`); and between a creation and the end the moves
form a path from the first state to the present one (`Stage.lived`).
-/
namespace WalletHub

/-- What a notice means to the life of its record. -/
inductive Mark (σ : Type) where
  | opens
  | moves (old new : σ)
  | speaks
  | closes

/-- A mark without its states. -/
inductive Stroke where
  | opens | speaks | closes
  deriving DecidableEq

def Mark.stroke {σ : Type} : Mark σ → Stroke
  | opens => .opens
  | moves .. => .speaks
  | speaks => .speaks
  | closes => .closes

/-- One stage in the life of a record, from a state to a state, none when it is not there. -/
inductive Stage {σ : Type} (born dead : σ) (R : σ → σ → Prop) (guarded : Prop) :
    Option σ → List (Mark σ) → Option σ → Prop
  | still (o : Option σ) : Stage born dead R guarded o [] o
  | opened : Stage born dead R guarded none [.opens] (some born)
  | moved {a b : σ} (step : R a b) (alive : b ≠ dead) :
      Stage born dead R guarded (some a) [.moves a b] (some b)
  | spoke {a : σ} (live : guarded → a ≠ dead) :
      Stage born dead R guarded (some a) [.speaks] (some a)
  /-- The record ends and is no longer there. -/
  | gone {a : σ} (step : R a dead) :
      Stage born dead R guarded (some a) [.moves a dead, .closes] none
  /-- The record ends and stays. -/
  | ended {a : σ} (step : R a dead) :
      Stage born dead R guarded (some a) [.moves a dead, .closes] (some dead)

variable {σ : Type} {born dead : σ} {R S : σ → σ → Prop} {guarded : Prop} {o o' : Option σ}
  {ms : List (Mark σ)}

/-! ## Brackets -/

/-- A row of disjoint brackets from `opens` to `closes`, of which only the last may be open, and is
so if the row comes with `true`. -/
inductive Row : List Stroke → Bool → Prop
  | none : Row [] false
  | opens {as : List Stroke} : Row as false → Row (as ++ [.opens]) true
  | speaks {as : List Stroke} : Row as true → Row (as ++ [.speaks]) true
  | closes {as : List Stroke} : Row as true → Row (as ++ [.closes]) false

/-- A row is open or it is not, and not both. -/
theorem Row.unique {as : List Stroke} {a b : Bool} (ha : Row as a) (hb : Row as b) : a = b := by
  induction ha generalizing b with
  | none =>
    generalize hx : ([] : List Stroke) = xs at hb
    cases hb <;> first | rfl | simp at hx
  | @opens as _ _ =>
    generalize hx : as ++ [Stroke.opens] = xs at hb
    cases hb <;> simp_all
  | @speaks as _ _ =>
    generalize hx : as ++ [Stroke.speaks] = xs at hb
    cases hb <;> simp_all
  | @closes as _ _ =>
    generalize hx : as ++ [Stroke.closes] = xs at hb
    cases hb <;> simp_all

theorem Row.existsUnique {as : List Stroke} {a : Bool} (h : Row as a) : ∃! a, Row as a :=
  ⟨a, h, fun _ hb => hb.unique h⟩

/-- Whether a record is there and not at its end. -/
def alive [DecidableEq σ] (dead : σ) : Option σ → Bool
  | none => false
  | some a => a ≠ dead

theorem Stage.row [DecidableEq σ] (hl : Stage born dead R guarded o ms o') (hg : guarded)
    (hborn : born ≠ dead) (hR : ∀ b, ¬R dead b) {as : List Stroke} (hr : Row as (alive dead o)) :
    Row (as ++ ms.map (·.stroke)) (alive dead o') := by
  have live : ∀ {a b}, R a b → alive dead (some a) = true := by
    intro a b hab
    have hne : a ≠ dead := fun he => hR b (he ▸ hab)
    simpa [alive] using hne
  cases hl with
  | still => simpa using hr
  | opened =>
    have hr := hr.opens
    simpa [alive, hborn, Mark.stroke] using hr
  | moved step hb =>
    rw [live step] at hr
    simpa [alive, hb, Mark.stroke] using hr.speaks
  | @spoke a ha =>
    have hlive : alive dead (some a) = true := by simpa [alive] using ha hg
    rw [hlive] at hr ⊢
    exact hr.speaks
  | gone step | ended step =>
    rw [live step] at hr
    simpa [alive, Mark.stroke] using hr.speaks.closes

/-! ## Paths -/

/-- Steps that lead from `a` to `b`, each from where the one before ended. -/
def Path (S : σ → σ → Prop) : σ → List (σ × σ) → σ → Prop
  | a, [], b => a = b
  | a, (x, y) :: rest, b => x = a ∧ S x y ∧ Path S y rest b

theorem Path.append {a b c : σ} {steps : List (σ × σ)} (h : Path S a steps b) (hs : S b c) :
    Path S a (steps ++ [(b, c)]) c := by
  induction steps generalizing a with
  | nil =>
    cases h
    exact ⟨rfl, hs, rfl⟩
  | cons x steps ih => exact ⟨h.1, h.2.1, ih h.2.2⟩

/-- Takes a mark into account: a record that comes into being begins a new list of moves. -/
def recorded (cs : List (List (σ × σ))) : Mark σ → List (List (σ × σ))
  | .opens => [] :: cs
  | .moves a b =>
    match cs with
    | c :: cs => (c ++ [(a, b)]) :: cs
    | [] => [[(a, b)]]
  | .speaks | .closes => cs

/-- The moves of a record, one list for each time that it came into being, the last one first. -/
def courses (ms : List (Mark σ)) : List (List (σ × σ)) := ms.foldl recorded []

/-- Every time that the record came into being its moves led from `born`: the last time to the
present state, if the record is there, and before that to `dead`, if all that ended is to have come
to its end. -/
def Lived (born dead : σ) (S : σ → σ → Prop) (ended : Prop) (ms : List (Mark σ)) : Option σ → Prop
  | none => ∀ c ∈ courses ms, ∃ b, Path S born c b ∧ (ended → b = dead)
  | some a => ∃ c cs, courses ms = c :: cs ∧ Path S born c a ∧
      ∀ d ∈ cs, ∃ b, Path S born d b ∧ (ended → b = dead)

theorem courses_append (as ms : List (Mark σ)) :
    courses (as ++ ms) = ms.foldl recorded (courses as) := List.foldl_append ..

variable {ended : Prop}

/-- A record that is there may as well be gone, if it came to its end or need not. -/
theorem Lived.gone {a : σ} (h : Lived born dead S ended ms (some a)) (ha : ended → a = dead) :
    Lived born dead S ended ms none := by
  obtain ⟨c, cs, hc, hp, hrest⟩ := h
  intro d hd
  rw [hc] at hd
  rcases List.mem_cons.1 hd with rfl | hd
  · exact ⟨a, hp, ha⟩
  · exact hrest d hd

theorem Lived.mono {ended' : Prop} (h : Lived born dead S ended ms o) (he : ended' → ended) :
    Lived born dead S ended' ms o := by
  have weaker : ∀ {d}, (∃ b, Path S born d b ∧ (ended → b = dead)) →
      ∃ b, Path S born d b ∧ (ended' → b = dead) := fun ⟨b, hp, hb⟩ => ⟨b, hp, hb ∘ he⟩
  cases o with
  | none => exact fun c hc => weaker (h c hc)
  | some a =>
    obtain ⟨c, cs, hc, hp, hrest⟩ := h
    exact ⟨c, cs, hc, hp, fun d hd => weaker (hrest d hd)⟩

theorem Stage.lived (hl : Stage born dead R guarded o ms o') (hRS : ∀ a b, R a b → S a b)
    {as : List (Mark σ)} (h : Lived born dead S ended as o) :
    Lived born dead S ended (as ++ ms) o' := by
  have ends : ∀ {a}, R a dead → Lived born dead S ended as (some a) →
      Lived born dead S ended (as ++ [.moves a dead, .closes]) (some dead) := by
    rintro a step ⟨c, cs, hc, hp, hrest⟩
    refine ⟨c ++ [(a, dead)], cs, ?_, hp.append (hRS _ _ step), hrest⟩
    simp only [courses_append, hc, List.foldl_cons, List.foldl_nil, recorded]
  cases hl with
  | still => simpa using h
  | opened => exact ⟨[], courses as, courses_append as [.opens], rfl, h⟩
  | @moved a b step =>
    obtain ⟨c, cs, hc, hp, hrest⟩ := h
    refine ⟨c ++ [(a, b)], cs, ?_, hp.append (hRS _ _ step), hrest⟩
    simp only [courses_append, hc, List.foldl_cons, List.foldl_nil, recorded]
  | spoke =>
    obtain ⟨c, cs, hc, hp, hrest⟩ := h
    exact ⟨c, cs, by simp only [courses_append, hc, List.foldl_cons, List.foldl_nil, recorded], hp,
      hrest⟩
  | gone step => exact (ends step h).gone fun _ => rfl
  | ended step => exact ends step h

end WalletHub
