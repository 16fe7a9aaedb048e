import ImpLang.Ir.Listing
import ImpLang.Ir.Wrapper
import ImpLang.Ir.Emit

/-!
Emission into the textual intermediate representation with a record of all requests.
-/

namespace ImpLang

/-- How a module is dumped: behind a number of parameters that are there already, and possibly with
look-ups that find nothing. -/
structure DumpOptions where
  pad : Nat
  blind : Bool
deriving DecidableEq, Repr

structure Dump where
  values : Except SlotError (List Value)
  module : Module
  listing : Listing
  calls : List Call

def Module.dump (options : DumpOptions) (module : Module) : Dump :=
  let listing := Builder.pad options.pad Listing.empty
  if options.blind then
    let emitted := module.emit (Traced.mk (Blind.mk listing) #[])
    ⟨emitted.values, emitted.module, emitted.builder.inner.inner, emitted.builder.calls.toList⟩
  else
    let emitted := module.emit (Traced.mk listing #[])
    ⟨emitted.values, emitted.module, emitted.builder.inner, emitted.builder.calls.toList⟩

end ImpLang
