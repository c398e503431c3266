/-
  File:      PeachKernel/Status.lean
  Subject:   The status codes of `status.h`. A function of the kernel answers `0` or a negated code.
-/
import Mathlib.Data.Int.Basic

namespace PeachKernel

def EIO : Int := 1
def EINVARG : Int := 2
def ENOMEM : Int := 3
def EBADPATH : Int := 4
def EFSNOTUS : Int := 5
def ERDONLY : Int := 6
def EUNIMP : Int := 7
def EISTKN : Int := 8
def EINFORMAT : Int := 9

attribute [simp] EIO EINVARG ENOMEM EBADPATH EFSNOTUS ERDONLY EUNIMP EISTKN EINFORMAT

end PeachKernel
