import BootImage.Log

/-! Hook lists.

    Before an image runs, its runtime calls the functions of two lists, each in list order. A hook
    is an address and what calling it does to the state of the program. -/

namespace BootImage.Boot

/-- One entry of a hook list. -/
structure Hook (σ : Type) where
  /-- The address, as it is shown. -/
  address : String
  call : σ → σ

variable {σ : Type}

/-- Calls the hooks, in list order. -/
def runHooks (hooks : List (Hook σ)) (state : σ) : σ := hooks.foldl (fun s h => h.call s) state

/-- What is told while hooks run: each, with its number from one. -/
def hookEvents (hooks : List (Hook σ)) : List Log.Event :=
  hooks.zipIdx.map fun (h, i) =>
    ⟨.trace, "horizon_rt0::hooks", s!"hook {i + 1}/{hooks.length} at {h.address}"⟩

/-- The hook that calls a registered initializer and nothing else. -/
def Hook.ofInitializer (address : String) (initializer : σ → σ) : Hook σ := ⟨address, initializer⟩

end BootImage.Boot
