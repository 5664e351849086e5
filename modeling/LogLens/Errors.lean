import LogLens.Platform

/-! `app/core/exceptions.py`, and the exceptions of the runtime and the database
that no handler names. -/

namespace LogLens

structure AppError where
  code : Str
  message : Str
  statusCode : Nat
  /-- `details["resource"]` -/
  resource : Option Str := none
  deriving DecidableEq

def authenticationError : AppError where
  code := "authentication_failed".toList
  message := "Invalid email or password.".toList
  statusCode := 401

def authorizationError (message : String) : AppError where
  code := "forbidden".toList
  message := message.toList
  statusCode := 403

def inactiveUserError : AppError where
  code := "inactive_user".toList
  message := "User account is disabled.".toList
  statusCode := 403

def duplicateEmailError : AppError where
  code := "email_already_registered".toList
  message := "Email already registered.".toList
  statusCode := 409

def rateLimitExceededError : AppError where
  code := "rate_limit_exceeded".toList
  message := "Too many login attempts. Try again later.".toList
  statusCode := 429

def conflictError (message : String) : AppError where
  code := "conflict".toList
  message := message.toList
  statusCode := 409

def notFoundError (resourceName : String) : AppError where
  code := "not_found".toList
  message := resourceName.toList ++ " not found.".toList
  statusCode := 404
  resource := some resourceName.toList

/-- How a call ends when it does not return. -/
inductive Raised
  | app (error : AppError)
  /-- any other exception, with its text -/
  | other (text : Str)
  deriving DecidableEq

/-- `sqlalchemy.exc.IntegrityError` of a flush that meets a row of its unique key -/
def integrityError : Raised :=
  .other "duplicate key value violates unique constraint".toList

/-- `str(exc)` -/
def Raised.text : Raised → Str
  | .app error => error.message
  | .other text => text

end LogLens
