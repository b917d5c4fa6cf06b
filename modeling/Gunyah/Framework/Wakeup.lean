/-!
# A cached flag and its interrupt

Whether a resource is ready is cached in a flag: `blocked`. An answer of the
resource, obtained under a lock, says what to store in the flag, and the
resource can change between the answer and the store. A resource that
becomes ready raises an interrupt, whose handler clears the flag under the
same lock. `Cached.Inv` is what every step keeps: when the resource is ready,
the flag is clear, or about to be cleared by what is stored, or the interrupt
is pending; so nobody waits for a flag that nothing will clear.
-/

namespace GH

/-- A resource, and what its user has stored about it for those who wait: that it is blocked, until an interrupt says
that it is ready again. -/
structure Cached where
  ready : Prop
  blocked : Bool
  pending : Bool
  /-- What the holder of the lock is about to store, if it is held: a value, or
  nothing. -/
  storing : Option (Option Bool)

/-- The flag once the lock is free. -/
def Cached.flag (c : Cached) : Bool := (c.storing.getD none).getD c.blocked

/-- What the peer, the holder of the lock and the interrupt handler may do. -/
inductive Cached.Step (c : Cached) : Cached → Prop where
  /-- The resource changes, and raises the interrupt if it becomes ready. -/
  | peer (ready : Prop) (pending : Bool) (hp : c.pending = true → pending = true)
      (hr : ready → c.ready ∨ pending = true) : Step c { c with ready := ready, pending := pending }
  /-- An answer under the lock. -/
  | call (ready : Prop) (v : Option Bool) (hl : c.storing = none) (hv : v = some true → ¬ ready)
      (hn : v = none → ready → c.ready) : Step c { c with ready := ready, storing := some v }
  | store (v : Option Bool) (hl : c.storing = some v) :
      Step c { c with blocked := v.getD c.blocked, storing := none }
  | isr (hl : c.storing = none) : Step c { c with blocked := false, pending := false }

/-- No wakeup is lost. -/
def Cached.Inv (c : Cached) : Prop := c.ready → c.flag = false ∨ c.pending = true

theorem Cached.Inv.step {c c' : Cached} (h : c.Inv) (hs : c.Step c') : c'.Inv := by
  cases hs with
  | peer ready pending hp hr =>
    intro hready
    rcases hr hready with hc | hp'
    · exact (h hc).imp id hp
    · exact .inr hp'
  | call ready v hl hv hn =>
    intro hready
    cases v with
    | none =>
      have := h (hn rfl hready)
      rwa [flag, hl] at this
    | some b =>
      cases b with
      | false => exact .inl rfl
      | true => exact absurd hready (hv rfl)
  | store v hl =>
    intro hready
    have := h hready
    rwa [flag, hl] at this
  | isr hl =>
    intro _
    left
    rw [flag, hl]
    rfl

/-- With the lock free, the flag is the cached one. -/
theorem Cached.Inv.blocked {c : Cached} (h : c.Inv) (hl : c.storing = none) (hr : c.ready) :
    c.blocked = false ∨ c.pending = true := by
  have := h hr
  rwa [flag, hl] at this

end GH
